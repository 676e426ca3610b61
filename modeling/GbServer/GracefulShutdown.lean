import GbServer.ThreadPool
import GbServer.Worker
import Mathlib.Data.Fintype.Basic
/-!
# GracefulShutdown — the phases of an `App`, its workers and its pool

`App` (`app.cpp`) from `Run` to the end of its phases, with `n` workers besides the main one (`worker.cpp`) and the
threads of the `ThreadPoolScheduler`.  The phases follow one another on the thread whose `Shutdown` came first
(`ShutdownManager`): that of the main loop, that of the signal, or that of whoever raised it.  `StoppingIO` does nothing to
the workers and is left out, and so is the second `Stop` of the pool, which finds it stopped.

A step is one access of what the threads share.  The code of the application (tasks, timers, hooks, `App::OnCleanup`)
makes any number of calls before it returns.  Which timers are due is an input; `size_approx` reads what is in the queue,
and `try_dequeue` misses tasks only where two threads take them, which is after `Shutdown`.

A task is `owed` if it was accepted before `Shutdown`, or is posted by a task that is owed.
-/
namespace Gb

open Threads Interleaving

inductive AppTask
  | posted (id : Nat) (owed : Bool)
  /-- What `CleanupInWorkerThread` puts into the queue. -/
  | cleanup
  deriving DecidableEq

namespace AppTask

def owed : AppTask → Bool
  | posted _ owed => owed
  | cleanup       => false

/-- The name of a task that is owed. -/
def owedId : AppTask → List Nat
  | posted id true => [id]
  | _              => []

/-- Accepted, before `Shutdown` or after it. -/
def accepted (requested : Bool) : AppTask → AppTask
  | posted id owed => posted id (owed || !requested)
  | cleanup        => cleanup

end AppTask

inductive FrameHook
  | onUpdate
  | onTick
  deriving DecidableEq

/-- What a frame of a worker runs. -/
inductive Activity
  | timer
  | task (task : AppTask)
  | hook (h : FrameHook)
  deriving DecidableEq

def Activity.owed : Activity → Bool
  | task t => t.owed
  | _      => false

structure GracefulShutdown (n : Nat) where
  workers        : Fin (n + 1) → Worker AppTask := fun _ => {}
  /-- Whether `SetWorkerLogic` has been called. -/
  logic          : Fin (n + 1) → Bool
  pool           : ThreadPool AppTask
  runding        : Bool := true
  signalReceived : Bool := false
  requested      : Bool := false
  cleaning       : Bool := false
  cleanedUp      : Fin (n + 1) → Bool := fun _ => false
  owed           : List Nat := []
  ran            : List Nat := []

inductive AppAction (n : Nat)
  | testShuttingDown (w : Fin (n + 1)) (task : AppTask)
  | testRuning (w : Fin (n + 1)) (task : AppTask)
  | enqueue (w : Fin (n + 1)) (task : AppTask)
  | execute (id : Nat)
  | pool (a : PoolAction AppTask)
  | onStart (w : Fin (n + 1))
  | loop (w : Fin (n + 1))
  | lastTask (w : Fin (n + 1))
  | timers (w : Fin (n + 1)) (final : Bool)
  | drain (w : Fin (n + 1)) (final : Bool)
  | hook (w : Fin (n + 1)) (h : FrameHook) (final : Bool)
  | running (w : Fin (n + 1)) (a : Activity)
  | stop (w : Fin (n + 1))
  | setCleanedUp (w : Fin (n + 1))
  | mainLoop
  | appUpdate
  | stopApp
  | signal
  | shutdown
  | finalFrame (ws : List (Fin (n + 1)))
  | stopPool
  | storePoolRunning
  | joinPool
  | enterShutdownMode (ws : List (Fin (n + 1)))
  | poll
  | readPending (ws : List (Fin (n + 1))) (allEmpty : Bool)
  | clean
  | appCleanup
  | cleanupWorkers (ws : List (Fin (n + 1)))
  | testCleanup (w : Fin (n + 1)) (ws : List (Fin (n + 1)))
  | awaitCleanup (w : Fin (n + 1)) (ws : List (Fin (n + 1)))
  deriving DecidableEq

inductive AppCall (n : Nat)
  | post (w : Fin (n + 1)) (id : Nat)
  | execute (id : Nat)
  | stop (w : Fin (n + 1))
  | stopApp
  | signal

/-- The action of a call that is made by code which is `owed`, or is not. -/
def AppCall.action {n : Nat} (owed : Bool) : AppCall n → AppAction n
  | post w id  => .testShuttingDown w (.posted id owed)
  | execute id => .execute id
  | stop w     => .stop w
  | stopApp    => .stopApp
  | signal     => .signal

/-- Where in the queue `try_dequeue` finds a task, whether a timer is due, the call that code of the application makes
next, whether the `OnUpdate` or the `OnTick` of the application fails, and whether a time limit has passed. -/
structure AppInput (n : Nat) where
  index    : Nat := 0
  due      : Bool := false
  does     : Option (AppCall n) := none
  fails    : Bool := false
  timedOut : Bool := false

namespace GracefulShutdown

variable {n : Nat} (s : GracefulShutdown n)

/-- `GetWorkers`. -/
def normalWorkers (n : Nat) : List (Fin (n + 1)) := (List.finRange n).map Fin.succ

/-- The main worker and the others. -/
def allWorkers (n : Nat) : List (Fin (n + 1)) := 0 :: normalWorkers n

def modify (w : Fin (n + 1)) (f : Worker AppTask → Worker AppTask) : GracefulShutdown n :=
  { s with workers := Function.update s.workers w (f (s.workers w)) }

/-- `EnqueueTask` puts a task in. -/
def accept (w : Fin (n + 1)) (task : AppTask) : GracefulShutdown n :=
  { s.modify w fun worker => worker.enqueue (task.accepted s.requested) with
    owed := s.owed ++ (task.accepted s.requested).owedId }

/-- `EnqueueTask` drops a task. -/
def refuse (task : AppTask) : GracefulShutdown n :=
  if s.requested then { s with owed := s.owed ++ task.owedId } else s

def takeEvent (w : Fin (n + 1)) (index : Nat) : GracefulShutdown n :=
  s.modify w fun worker => { worker with events := worker.events.eraseIdx index }

def processFrame (w : Fin (n + 1)) (final : Bool) : List (AppAction n) :=
  [.timers w final, .drain w final, .hook w .onUpdate final, .hook w .onTick final]

/-- An activity returns. -/
def finished (w : Fin (n + 1)) : Activity → GracefulShutdown n × List (AppAction n)
  | .task .cleanup => (s, [.stop w, .setCleanedUp w])
  | .task task     => ({ s with ran := s.ran ++ task.owedId }, [])
  | _              => (s, [])

def act (input : AppInput n) : AppAction n → Option (GracefulShutdown n × List (AppAction n))
  | .testShuttingDown w task =>
    if (s.workers w).shuttingDown then some (s.refuse task, []) else some (s, [.testRuning w task])
  | .testRuning w task       => if (s.workers w).runing then some (s, [.enqueue w task]) else some (s.refuse task, [])
  | .enqueue w task          => some (s.accept w task, [])
  | .execute id              =>
    (s.pool.act 0 (.execute (some (.posted id !s.requested)))).map fun r => ({ s with pool := r.1 }, r.2.map .pool)
  | .pool a                  =>
    match a, input.does with
    | .run (some task) _, some c => some (s, [c.action task.owed, .pool a])
    | _, _ => (s.pool.act input.index a).map fun r => ({ s with pool := r.1 }, r.2.map .pool)
  | .onStart w               => some (s.modify w Worker.onStart, [.loop w])
  | .loop w                  =>
    some (s, if (s.workers w).runing then processFrame w false ++ [.loop w] else [.lastTask w])
  | .lastTask w              =>
    match (s.workers w).events[input.index]? with
    | some task => some (s.takeEvent w input.index, [.running w (.task task), .loop w])
    | none      =>
      if (s.workers w).events = [] ∨ s.requested then some (s.modify w fun worker => { worker with exited := true }, [])
      else none
  | .timers w final          => some (s, if input.due then [.running w .timer, .timers w final] else [])
  | .drain w final           =>
    match (s.workers w).events[input.index]? with
    | some task => some (s.takeEvent w input.index, [.running w (.task task), .drain w final])
    | none      => if (s.workers w).events = [] ∨ s.requested then some (s, []) else none
  | .hook w h _              => some (s, if s.logic w then [.running w (.hook h)] else [])
  | .running w a             =>
    match input.does with
    | some c => some (s, [c.action a.owed, .running w a])
    | none   => some (s.finished w a)
  | .stop w                  => some (s.modify w Worker.stop, [])
  | .setCleanedUp w          => some ({ s with cleanedUp := Function.update s.cleanedUp w true }, [])
  | .mainLoop                => some (s, [if s.runding && !s.signalReceived then .appUpdate else .shutdown])
  | .appUpdate               =>
    match input.does with
    | some c => some (s, [c.action false, .appUpdate])
    | none   => some (s, if input.fails then [.shutdown] else processFrame 0 false ++ [.mainLoop])
  | .stopApp                 => some ({ s with runding := false }, [])
  | .signal                  => some ({ s with signalReceived := true }, [.stopApp, .shutdown])
  | .shutdown                =>
    if s.requested then some (s, []) else some ({ s with requested := true }, [.finalFrame (allWorkers n)])
  | .finalFrame []           => some (s, [.stopPool])
  | .finalFrame (w :: ws)    => some (s, processFrame w true ++ [.finalFrame ws])
  | .stopPool                =>
    some (s, [if s.pool.running then .storePoolRunning else .enterShutdownMode (allWorkers n)])
  | .storePoolRunning        => some ({ s with pool := { s.pool with running := false } }, [.joinPool])
  | .joinPool                =>
    if s.pool.live = 0 then some ({ s with pool := { s.pool with stopped := true } }, [.enterShutdownMode (allWorkers n)])
    else none
  | .enterShutdownMode []    => some (s, [.poll])
  | .enterShutdownMode (w :: ws) => some (s.modify w Worker.enterShutdownMode, [.enterShutdownMode ws])
  | .poll                    => some (s, [if input.timedOut then .clean else .readPending (allWorkers n) true])
  | .readPending [] allEmpty => some (s, [if allEmpty then .clean else .poll])
  | .readPending (w :: ws) allEmpty =>
    if (s.workers w).events = [] then some (s, [.readPending ws allEmpty])
    -- the loop over the others ends at the first that has tasks
    else some (s, [if w = 0 then .readPending ws false else .poll])
  | .clean                   => some ({ s with cleaning := true }, [.appCleanup])
  | .appCleanup              =>
    match input.does with
    | some c => some (s, [c.action false, .appCleanup])
    | none   => some (s, [.cleanupWorkers (normalWorkers n)])
  | .cleanupWorkers []       => some (s, [.stop 0])
  | .cleanupWorkers (w :: ws) =>
    some (s, [if (s.workers w).runing then .testCleanup w ws else .cleanupWorkers ws])
  | .testCleanup w ws        =>
    some (s, if (s.workers w).runing then [.enqueue w .cleanup, .awaitCleanup w ws] else [.stop w, .cleanupWorkers ws])
  | .awaitCleanup w ws       =>
    if s.cleanedUp w then some (s, [.cleanupWorkers ws])
    else if input.timedOut then some (s, [.stop w, .cleanupWorkers ws])
    else none

def call (c : AppCall n) : Option (GracefulShutdown n × List (AppAction n)) := some (s, [c.action false])

def program : Program (GracefulShutdown n) (AppInput n) (AppCall n) (AppAction n) := ⟨act, call, fun _ => false⟩

/-- When `Run` begins: the thread of the main loop, one for each of the other workers, and those of the pool. -/
def init (logic : Fin (n + 1) → Bool) (threads hardware : Nat) : State (GracefulShutdown n) (AppAction n) where
  shared := {
    workers := Function.update (fun _ => {}) 0 ({} : Worker AppTask).onStart
    logic
    pool    := (ThreadPool.init threads hardware).shared }
  ops    := [.mainLoop] :: (normalWorkers n).map (fun w => [.onStart w]) ++
    List.replicate (ThreadPool.threadCount threads hardware) [.pool .loop]

/-- A thread takes so many actions, without inputs. -/
def steps (k count : Nat) : List (Event (AppInput n) (AppCall n)) := List.replicate count (.step k {})

end GracefulShutdown

abbrev AppThreads (n : Nat) := State (GracefulShutdown n) (AppAction n)

end Gb
