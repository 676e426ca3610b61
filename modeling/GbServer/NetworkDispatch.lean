import GbServer.Lib.Run
import GbServer.MessageMeta
import GbServer.Router
/-!
# NetworkDispatch — on which thread the handler of a message runs

`NetworkManager::Dispatch` (`network_manager.cpp`) and what becomes of the handlers that it starts.  An IO thread asks the
router for an executor and looks the handler up, and then gives the executor the handler; in between, and before a worker
comes to a task, workers are created, started, stopped and destroyed, and the router changes.  A handler that runs
elsewhere than on the worker of its message runs where it was dispatched, and that is when the message had no worker, or
one that had no executor yet and was gone; or it runs where the phases of the shutdown (`app.cpp`) run, which take the
tasks that the workers have left (`run_onlySelected_iff`).
-/
namespace Gb

open Run (Along)

namespace MsgMode

def msg : Nat := 0

def request : Nat := 1

def response : Nat := 2

end MsgMode

/-- The two parts of a `SequenceId`. -/
structure SequenceId where
  index : Nat
  seq   : Nat
  deriving DecidableEq

namespace SequenceId

def value (sid : SequenceId) : Nat := sid.index % 2 ^ 32 + sid.seq % 2 ^ 32 * 2 ^ 32

def ofValue (value : Nat) : SequenceId := ⟨value % 2 ^ 32, value / 2 ^ 32 % 2 ^ 32⟩

end SequenceId

abbrev SessionId := Nat

abbrev HandlerId := Nat

/-- A handler with its message; `selected` is the worker of the message, and whether it had its executor. -/
structure HandlerCall where
  handler  : HandlerId
  session  : SessionId
  meta_    : Meta
  selected : Option (WorkerId × Bool)
  deriving DecidableEq

inductive WorkerTask
  | handler (call : HandlerCall)
  | response (session : SessionId) (m : Meta) (localSeq : Nat)
  | other (n : Nat)
  deriving DecidableEq

/-- The maps of listeners and RPC functions, with their frozen copies. -/
structure Handlers where
  listenFunctionMap      : Nat → Option HandlerId := fun _ => none
  frozenListenMap        : Option (Nat → Option HandlerId) := none
  rpcInterfaceMap        : Nat → Option HandlerId := fun _ => none
  frozenRpcInterfaceMap  : Option (Nat → Option HandlerId) := none

namespace Handlers

def findListenFunction (hs : Handlers) (type : Nat) : Option HandlerId :=
  (hs.frozenListenMap.getD hs.listenFunctionMap) type

def findRpcFunction (hs : Handlers) (method : Nat) : Option HandlerId :=
  (hs.frozenRpcInterfaceMap.getD hs.rpcInterfaceMap) method

end Handlers

/-- What `Dispatch` does with a message: a handler for an executor, a task for a worker, or nothing. -/
inductive Dispatched
  | execute (executor : WorkerExecutor WorkerTask) (call : HandlerCall)
  | post (worker : WorkerId) (task : WorkerTask)
  | nothing

/-- The worker of a message, and whether `Init` has made its executor. -/
def selectedWorker (ws : Workers WorkerTask) (r : Router) (m : Meta) : Option (WorkerId × Bool) :=
  (r.route ws m.type m.userUniqueId).map fun id => (id, (ws.heap id).any Worker.executor)

/-- `NetworkManager::Dispatch`, up to `WorkerExecutor::Dispatch`. -/
def networkDispatch (ws : Workers WorkerTask) (r : Router) (hs : Handlers) (session : SessionId) (m : Meta) : Dispatched :=
  let execute := fun (find : Option HandlerId) =>
    let executor := r.getExecutor ws m.type m.userUniqueId
    match find with
    | some handler => Dispatched.execute executor ⟨handler, session, m, selectedWorker ws r m⟩
    | none         => .nothing
  if m.mode = MsgMode.msg then execute (hs.findListenFunction m.type)
  else if m.mode = MsgMode.request then execute (hs.findRpcFunction m.method)
  else if m.mode = MsgMode.response then
    let sid := SequenceId.ofValue m.sequence
    match ws.getWorker sid.index with
    | some worker => .post worker (.response session m sid.seq)
    | none        => .nothing
  else .nothing

/-! ## The threads -/

/-- A step of one thread.  The router and the handlers may change in any way. -/
inductive NetworkEvent
  | received (io : Nat) (session : SessionId) (m : Meta)
  | dispatched (k : Nat)
  | worked (id : WorkerId) (k : Nat)
  /-- The last frame of a worker, which the thread with the phases of the shutdown runs. -/
  | finalFrame (thread : Thread) (id : WorkerId) (k : Nat)
  | created (id : WorkerId) (isMain : Bool)
  | changed (id : WorkerId) (event : WorkerEvent)
  | cleared
  | destroyed (id : WorkerId)
  | posted (id : WorkerId) (n : Nat)
  | routed (router : Router)
  | registered (handlers : Handlers)

structure Network where
  workers     : Workers WorkerTask := {}
  router      : Router := {}
  handlers    : Handlers := {}
  /-- The calls of `Dispatch` that have got their executor. -/
  dispatching : List (Nat × WorkerExecutor WorkerTask × HandlerCall) := []
  /-- The handlers that have run, with their threads. -/
  ran         : List (Thread × HandlerCall) := []

namespace Network

def run (n : Network) (thread : Thread) : Option WorkerTask → Network
  | some (.handler call) => { n with ran := (thread, call) :: n.ran }
  | _                    => n

/-- `OnUpdate` takes a task from the queue of a worker, and runs it where it is. -/
def take (n : Network) (thread : Thread) (id : WorkerId) (k : Nat) : Network :=
  let task := (n.workers.tasks id)[k]?
  { n with workers := n.workers.modify id fun w => { w with events := w.events.eraseIdx k } }.run thread task

def step (n : Network) : NetworkEvent → Network
  | .received io session m =>
    match networkDispatch n.workers n.router n.handlers session m with
    | .execute executor call => { n with dispatching := (io, executor, call) :: n.dispatching }
    | .post worker task      => { n with workers := n.workers.post worker task }
    | .nothing               => n
  | .dispatched k =>
    match n.dispatching[k]? with
    | some (io, executor, call) =>
      let (inline, workers) := executor.dispatch n.workers (.io io) (.handler call)
      { n with workers := workers, dispatching := n.dispatching.eraseIdx k }.run (.io io) inline
    | none => n
  | .worked id k            => n.take (.worker id) id k
  | .finalFrame thread id k => n.take thread id k
  | .created id isMain =>
    if (n.workers.heap id).isSome then n
    else
      let ws := n.workers.update id (some {})
      { n with workers := if isMain then { ws with mainWorker := some id } else { ws with workers := ws.workers ++ [id] } }
  | .changed id event => { n with workers := n.workers.modify id fun w => event.apply w }
  | .cleared          => { n with workers := { n.workers with mainWorker := none, workers := [] } }
  | .destroyed id     =>
    -- the manager keeps the workers alive that it has
    if n.workers.mainWorker = some id ∨ id ∈ n.workers.workers then n else { n with workers := n.workers.update id none }
  | .posted id k      => { n with workers := n.workers.post id (.other k) }
  | .routed router    => { n with router := router }
  | .registered hs    => { n with handlers := hs }

end Network

/-! ## Only on the worker of the message -/

/-- Every handler that has run has run on the worker of its message; the handler of a message without one has not run. -/
def OnlySelected (n : Network) : Prop :=
  ∀ r ∈ n.ran, ∃ id executor, r.2.selected = some (id, executor) ∧ r.1 = .worker id

/-- The message whose handler is dispatched here has a worker; and that has its executor, or is there.  No last frame of a
worker finds a handler in the queue, unless the phases run on the thread of that worker. -/
def SelectedWorker (n : Network) : NetworkEvent → Prop
  | .dispatched k => ∀ d ∈ n.dispatching[k]?, ∃ id executor, d.2.2.selected = some (id, executor) ∧
      (executor = true ∨ (n.workers.heap id).isSome = true)
  | .finalFrame thread id k =>
    -- the phases run on the thread of the first `Shutdown`
    thread = .worker id ∨ ∀ call, (n.workers.tasks id)[k]? ≠ some (.handler call)
  | _             => True

/-! ## Where a handler is on its way -/

/-- An executor that the router gave for a message. -/
def FromRouter (executor : WorkerExecutor WorkerTask) (call : HandlerCall) : Prop :=
  (call.selected = none ∧ executor = {}) ∨
    ∃ id ready, call.selected = some (id, ready) ∧ executor = { worker := some id, inlineFallback := !ready }

/-- A task that may be in the queue of a worker: a handler is in that of the worker of its message. -/
def Belongs (id : WorkerId) : WorkerTask → Prop
  | .handler call => ∃ ready, call.selected = some (id, ready)
  | _             => True

structure OnTheWay (n : Network) : Prop where
  dispatching : ∀ d ∈ n.dispatching, FromRouter d.2.1 d.2.2
  queued      : ∀ id, ∀ task ∈ n.workers.tasks id, Belongs id task

theorem fromRouter (ws : Workers WorkerTask) (r : Router) (handler : HandlerId) (session : SessionId) (m : Meta) :
    FromRouter (r.getExecutor ws m.type m.userUniqueId) ⟨handler, session, m, selectedWorker ws r m⟩ := by
  unfold FromRouter selectedWorker
  rcases r.getExecutor_cases ws m.type m.userUniqueId with ⟨hroute, hexecutor⟩ | ⟨id, hroute, hexecutor⟩
  · rw [hroute, hexecutor]
    exact .inl ⟨rfl, rfl⟩
  · rw [hroute, hexecutor]
    refine .inr ⟨id, (ws.heap id).any Worker.executor, rfl, ?_⟩
    unfold WorkerExecutor.ofWorker
    cases (ws.heap id).any Worker.executor <;> rfl

/-- What the first part of a dispatch leads to. -/
theorem networkDispatch_cases (ws : Workers WorkerTask) (r : Router) (hs : Handlers) (session : SessionId) (m : Meta) :
    (∃ executor call, networkDispatch ws r hs session m = .execute executor call ∧ FromRouter executor call) ∨
      (∃ id seq, networkDispatch ws r hs session m = .post id (.response session m seq)) ∨
      networkDispatch ws r hs session m = .nothing := by
  unfold networkDispatch
  dsimp only
  split
  · cases hs.findListenFunction m.type with
    | none         => exact .inr (.inr rfl)
    | some handler => exact .inl ⟨_, _, rfl, fromRouter ws r handler session m⟩
  · split
    · cases hs.findRpcFunction m.method with
      | none         => exact .inr (.inr rfl)
      | some handler => exact .inl ⟨_, _, rfl, fromRouter ws r handler session m⟩
    · split
      · cases ws.getWorker (SequenceId.ofValue m.sequence).index with
        | none    => exact .inr (.inr rfl)
        | some id => exact .inr (.inl ⟨id, _, rfl⟩)
      · exact .inr (.inr rfl)

/-- **What the dispatch of a handler comes to**: the queue of the worker of its message, or nothing, if the message has a
worker that has its executor or is there; otherwise the IO thread. -/
theorem dispatch_cases {executor : WorkerExecutor WorkerTask} {call : HandlerCall} (h : FromRouter executor call)
    (ws : Workers WorkerTask) (io : Nat) :
    ((∃ id ready, call.selected = some (id, ready) ∧ (ready = true ∨ (ws.heap id).isSome = true)) ∧
      ((∃ id ready, call.selected = some (id, ready) ∧
        executor.dispatch ws (.io io) (.handler call) = (none, ws.post id (.handler call))) ∨
        executor.dispatch ws (.io io) (.handler call) = (none, ws))) ∨
      (¬∃ id ready, call.selected = some (id, ready) ∧ (ready = true ∨ (ws.heap id).isSome = true)) ∧
        executor.dispatch ws (.io io) (.handler call) = (some (.handler call), ws) := by
  rcases h with ⟨hselected, rfl⟩ | ⟨id, ready, hselected, rfl⟩
  · refine .inr ⟨fun ⟨id, ready, hsome, _⟩ => ?_, rfl⟩
    rw [hselected] at hsome
    cases hsome
  · rcases @WorkerExecutor.dispatch_io _ ws { worker := some id, inlineFallback := !ready } rfl io
      (WorkerTask.handler call) with ⟨j, hj, hheap, hpost⟩ | ⟨hgone, hrun⟩
    · injection hj with hj
      subst hj
      exact .inl ⟨⟨id, ready, hselected, .inr hheap⟩, .inl ⟨id, ready, hselected, hpost⟩⟩
    · have hheap := hgone id rfl
      cases ready with
      | true  => exact .inl ⟨⟨id, true, hselected, .inl rfl⟩, .inr hrun⟩
      | false =>
        refine .inr ⟨fun ⟨j, ready, hsome, hor⟩ => ?_, hrun⟩
        rw [hselected] at hsome
        injection hsome with hpair
        injection hpair with hid hready
        subst hid hready
        rw [hheap] at hor
        exact hor.elim Bool.false_ne_true Bool.false_ne_true

/-! ## Every step, and every run -/

namespace OnTheWay

variable {n : Network}

theorem init : OnTheWay {} := ⟨fun _ hd => (nomatch hd), fun _ _ ht => nomatch ht⟩

/-- Tasks that were there, and one that belongs where it is put. -/
theorem queued_post {ws : Workers WorkerTask} (h : ∀ id, ∀ task ∈ ws.tasks id, Belongs id task) {id : WorkerId}
    {handler : WorkerTask} (hbelongs : Belongs id handler) :
    ∀ j, ∀ task ∈ (ws.post id handler).tasks j, Belongs j task := by
  intro j task ht
  rcases Workers.mem_tasks_post ht with ht | ⟨rfl, rfl⟩
  · exact h j task ht
  · exact hbelongs

/-- A change of a worker that adds no task. -/
theorem queued_modify {ws : Workers WorkerTask} (h : ∀ id, ∀ task ∈ ws.tasks id, Belongs id task) {id : WorkerId}
    {f : Worker WorkerTask → Worker WorkerTask} (hf : ∀ w, ∀ task ∈ (f w).events, task ∈ w.events) :
    ∀ j, ∀ task ∈ (ws.modify id f).tasks j, Belongs j task := by
  intro j task ht
  by_cases hj : j = id
  · subst hj
    obtain ⟨w, hw, hmem⟩ := Workers.mem_tasks_modify ht
    exact h j task (Workers.mem_tasks_of_heap hw (hf w task hmem))
  · rw [ws.tasks_modify_of_ne hj] at ht
    exact h j task ht

/-- A worker without tasks. -/
theorem queued_update {ws : Workers WorkerTask} (h : ∀ id, ∀ task ∈ ws.tasks id, Belongs id task) {id : WorkerId}
    {w : Option (Worker WorkerTask)} (hw : (w.map Worker.events).getD [] = []) :
    ∀ j, ∀ task ∈ (ws.update id w).tasks j, Belongs j task := by
  intro j task ht
  by_cases hj : j = id
  · subst hj
    rw [Workers.tasks_update_self, hw] at ht
    cases ht
  · rw [ws.tasks_update_of_ne hj] at ht
    exact h j task ht

theorem run_workers (n : Network) (thread : Thread) (task : Option WorkerTask) :
    (n.run thread task).workers = n.workers ∧ (n.run thread task).dispatching = n.dispatching := by
  unfold Network.run
  split <;> exact ⟨rfl, rfl⟩

theorem ran (h : OnTheWay n) (thread : Thread) (task : Option WorkerTask) : OnTheWay (n.run thread task) := by
  obtain ⟨hworkers, hdispatching⟩ := run_workers n thread task
  exact ⟨hdispatching ▸ h.dispatching, hworkers ▸ h.queued⟩

theorem dispatched (h : OnTheWay n) {k io : Nat} {executor : WorkerExecutor WorkerTask} {call : HandlerCall}
    (hk : n.dispatching[k]? = some (io, executor, call)) :
    OnTheWay { n with workers := (executor.dispatch n.workers (.io io) (.handler call)).2
                      dispatching := n.dispatching.eraseIdx k } := by
  have hfrom := h.dispatching _ (List.mem_of_getElem? hk)
  refine ⟨fun d hd => h.dispatching d (List.mem_of_mem_eraseIdx hd), ?_⟩
  change ∀ id, ∀ task ∈ (executor.dispatch n.workers (.io io) (.handler call)).2.tasks id, Belongs id task
  rcases dispatch_cases hfrom n.workers io with ⟨_, ⟨id, ready, hselected, hpost⟩ | hdrop⟩ | ⟨_, hrun⟩
  · rw [hpost]
    exact queued_post h.queued ⟨ready, hselected⟩
  · rw [hdrop]
    exact h.queued
  · rw [hrun]
    exact h.queued

theorem take (h : OnTheWay n) (thread : Thread) (id : WorkerId) (k : Nat) : OnTheWay (n.take thread id k) := by
  have hpop : OnTheWay { n with workers := n.workers.modify id fun w => { w with events := w.events.eraseIdx k } } :=
    ⟨h.dispatching, queued_modify h.queued fun w task ht => List.mem_of_mem_eraseIdx ht⟩
  exact hpop.ran _ _

theorem step (h : OnTheWay n) (event : NetworkEvent) : OnTheWay (n.step event) := by
  cases event with
  | received io session m =>
    unfold Network.step
    dsimp only
    rcases networkDispatch_cases n.workers n.router n.handlers session m with
      ⟨executor, call, heq, hfrom⟩ | ⟨id, seq, heq⟩ | heq
    · rw [heq]
      refine ⟨fun d hd => ?_, h.queued⟩
      rcases List.mem_cons.1 hd with rfl | hd
      · exact hfrom
      · exact h.dispatching d hd
    · rw [heq]
      exact ⟨h.dispatching, queued_post h.queued trivial⟩
    · rw [heq]
      exact h
  | dispatched k =>
    unfold Network.step
    dsimp only
    cases hk : n.dispatching[k]? with
    | none   => exact h
    | some d => exact (h.dispatched hk).ran _ _
  | worked id k => exact h.take (.worker id) id k
  | finalFrame thread id k => exact h.take thread id k
  | created id isMain =>
    unfold Network.step
    dsimp only
    split
    · exact h
    · have hqueued : ∀ j, ∀ task ∈ (n.workers.update id (some {})).tasks j, Belongs j task :=
        queued_update h.queued rfl
      cases isMain with
      | true  => exact ⟨h.dispatching, hqueued⟩
      | false => exact ⟨h.dispatching, hqueued⟩
  | changed id event =>
    refine ⟨h.dispatching, queued_modify h.queued fun w task ht => ?_⟩
    rwa [WorkerEvent.events_apply] at ht
  | cleared => exact ⟨h.dispatching, h.queued⟩
  | destroyed id =>
    unfold Network.step
    dsimp only
    split
    · exact h
    · exact ⟨h.dispatching, queued_update h.queued rfl⟩
  | posted id k => exact ⟨h.dispatching, queued_post h.queued trivial⟩
  | routed router => exact ⟨h.dispatching, h.queued⟩
  | registered hs => exact ⟨h.dispatching, h.queued⟩

end OnTheWay

/-- A thread that takes a task from the queue of a worker: it is that of the worker, or the task is no handler. -/
theorem onlySelected_take {n : Network} (h : OnTheWay n) (thread : Thread) (id : WorkerId) (k : Nat) :
    OnlySelected (n.take thread id k) ↔
      OnlySelected n ∧ (thread = .worker id ∨ ∀ call, (n.workers.tasks id)[k]? ≠ some (.handler call)) := by
  unfold Network.take Network.run
  dsimp only
  split
  · rename_i call hk
    obtain ⟨ready, hselected⟩ := h.queued id _ (List.mem_of_getElem? hk)
    constructor
    · intro hs
      refine ⟨fun r hr => hs r (List.mem_cons_of_mem _ hr), .inl ?_⟩
      obtain ⟨id', ready', hselected', hthread⟩ := hs (thread, call) List.mem_cons_self
      rw [hselected] at hselected'
      injection hselected' with hpair
      injection hpair with hid
      exact hid ▸ hthread
    · rintro ⟨hs, hthread | hnone⟩ r hr
      · rcases List.mem_cons.1 hr with rfl | hr
        · exact ⟨id, ready, hselected, hthread⟩
        · exact hs r hr
      · exact absurd hk (hnone call)
  · rename_i hnone
    exact ⟨fun hs => ⟨hs, .inr fun call hk => hnone call hk⟩, fun hs => hs.1⟩

/-- **A step keeps the handlers on the workers of their messages exactly if the message that it dispatches has one, and if
it is no last frame with a handler, run on another thread.** -/
theorem onlySelected_step {n : Network} (h : OnTheWay n) (event : NetworkEvent) :
    OnlySelected (n.step event) ↔ OnlySelected n ∧ SelectedWorker n event := by
  have hsame : ∀ {m : Network}, m.ran = n.ran → (OnlySelected m ↔ OnlySelected n ∧ True) := by
    intro m hm
    unfold OnlySelected
    rw [hm, and_true]
  cases event with
  | received io session m =>
    refine hsame ?_
    unfold Network.step
    dsimp only
    split <;> rfl
  | dispatched k =>
    unfold SelectedWorker Network.step
    dsimp only
    cases hk : n.dispatching[k]? with
    | none   => exact ⟨fun h => ⟨h, fun _ hd => nomatch hd⟩, fun h => h.1⟩
    | some d =>
      obtain ⟨io, executor, call⟩ := d
      have hfrom := h.dispatching _ (List.mem_of_getElem? hk)
      dsimp only
      rcases dispatch_cases hfrom n.workers io with ⟨hselected, ⟨_, _, _, hpost⟩ | hdrop⟩ | ⟨hnot, hrun⟩
      · rw [hpost]
        exact ⟨fun h => ⟨h, fun d hd => Option.some.inj hd ▸ hselected⟩, fun h => h.1⟩
      · rw [hdrop]
        exact ⟨fun h => ⟨h, fun d hd => Option.some.inj hd ▸ hselected⟩, fun h => h.1⟩
      · rw [hrun]
        constructor
        · intro h
          obtain ⟨id, _, _, hthread⟩ := h (.io io, call) List.mem_cons_self
          cases hthread
        · exact fun h => absurd (h.2 _ rfl) hnot
  | worked id k =>
    refine (onlySelected_take h (.worker id) id k).trans (and_congr_right fun _ => ?_)
    exact iff_of_true (.inl rfl) trivial
  | finalFrame thread id k => exact onlySelected_take h thread id k
  | created id isMain =>
    refine hsame ?_
    unfold Network.step
    dsimp only
    split
    · rfl
    · rfl
  | destroyed id =>
    refine hsame ?_
    unfold Network.step
    dsimp only
    split <;> rfl
  | _ => exact hsame rfl

/-- **In every run, the handlers run only on the workers of their messages if and only if every message whose handler is
dispatched has a worker, which has its executor or is there, and the last frames that other threads run find no handler.** -/
theorem run_onlySelected_iff (events : List NetworkEvent) :
    OnlySelected (events.foldl Network.step {}) ↔ Along Network.step SelectedWorker {} events := by
  have hrun := Run.foldl_iff (fun n event h => OnTheWay.step (n := n) h event)
    (fun n event h => onlySelected_step (n := n) h event) events OnTheWay.init
  rw [hrun]
  exact and_iff_right fun r hr => nomatch hr

/-- The meta of a message for the entity 1, which is bound to no worker. -/
def entityMeta : Meta := ⟨[0, 1] ++ List.replicate 28 0, by decide⟩

/-- A listener, a message, and its dispatch on an IO thread. -/
def unboundRun : List NetworkEvent :=
  [.routed { policy := .stateful }, .registered { listenFunctionMap := fun _ => some 7 }, .received 0 0 entityMeta,
    .dispatched 0]

theorem not_run_onlySelected : ¬∀ events : List NetworkEvent, OnlySelected (events.foldl Network.step {}) := by
  intro h
  have hran : (unboundRun.foldl Network.step {}).ran = [(.io 0, ⟨7, 0, entityMeta, none⟩)] := rfl
  obtain ⟨id, ready, hselected, _⟩ := h unboundRun (.io 0, ⟨7, 0, entityMeta, none⟩) (hran ▸ List.mem_cons_self)
  cases hselected

end Gb
