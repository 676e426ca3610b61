import GbServer.Lib.ProducerQueue
import GbServer.NetworkDispatch
/-!
# SessionOrder — in which order the handlers of a session start

`on_received` reports the messages of a session one after another on the session's IO thread, and each goes through
`NetworkManager::Dispatch` (`network_manager.cpp`) into the queue of a worker, by its executor or, for a response, by a post.
A worker takes the tasks out of its queue in `OnUpdate` (`worker.cpp`), in the order of each thread that put tasks in.

`received` are the tasks that the messages were made, with their workers, in the order of `on_received`; `started` those
that workers have started.  Between the two is a task in the queue or in the hand of the IO thread, unless its worker was not
running when it came (`run_inOrder_iff`).  The task of a response starts the completion of a call that is still pending.
-/
namespace Gb

open Run (Along Always)
open ProducerQueue

/-- The session whose message a task is about. -/
def WorkerTask.session : WorkerTask → Option SessionId
  | .handler call        => some call.session
  | .response session _ _ => some session
  | .other _             => none

/-- What a message is made, and the worker it is for. -/
def Dispatched.task : Dispatched → Option (WorkerId × WorkerTask)
  | .execute executor call => executor.worker.map fun id => (id, .handler call)
  | .post id task          => some (id, task)
  | .nothing               => none

theorem Dispatched.task_execute (executor : WorkerExecutor WorkerTask) (call : HandlerCall) :
    (execute executor call).task = executor.worker.map fun id => (id, .handler call) := rfl

structure OrderedNetwork where
  workers  : Workers WorkerTask := {}
  router   : Router := {}
  handlers : Handlers := {}
  /-- What an IO thread is about to give to an executor or a worker. -/
  inHand   : Nat → Option Dispatched := fun _ => none
  received : List (WorkerId × WorkerTask) := []
  started  : List (WorkerId × WorkerTask) := []

/-- Steps before a shutdown; the router may change, too. -/
inductive OrderedEvent
  | received (session : SessionId) (m : Meta)
  | dispatched (io : Nat)
  | worked (id : WorkerId) (k : Nat)
  | created (id : WorkerId) (isMain : Bool)
  | init (id : WorkerId) (index : Nat)
  | onStart (id : WorkerId)
  | posted (id : WorkerId) (n : Nat)
  | routed (router : Router)
  | registered (handlers : Handlers)

namespace OrderedNetwork

variable (ioOf : SessionId → Nat) (s : OrderedNetwork)

/-- `WorkerExecutor::Dispatch` and `Worker::Post` on an IO thread. -/
def give (io : Nat) : Dispatched → OrderedNetwork
  | .execute executor call => { s with workers := (executor.dispatch s.workers (.io io) (.handler call)).2 }
  | .post id task          => { s with workers := s.workers.post id task }
  | .nothing               => s

/-- The IO thread that put a task of a message into a queue. -/
def producer (task : WorkerTask) : Option Nat := task.session.map ioOf

def step (s : OrderedNetwork) : OrderedEvent → OrderedNetwork
  | .received session m =>
    match s.inHand (ioOf session) with
    | none   =>
      let d := networkDispatch s.workers s.router s.handlers session m
      { s with inHand := Function.update s.inHand (ioOf session) (some d), received := s.received ++ d.task.toList }
    | some _ => s
  | .dispatched io      =>
    match s.inHand io with
    | some d => { s.give io d with inHand := Function.update s.inHand io none }
    | none   => s
  | .worked id k        =>
    if (s.workers.heap id).any Worker.runing ∧ Next (producer ioOf) (s.workers.tasks id) k then
      match (s.workers.tasks id)[k]? with
      | some task =>
        { s with
          workers := s.workers.modify id fun w => { w with events := w.events.eraseIdx k }
          started := s.started ++ [(id, task)] }
      | none      => s
    else s
  | .created id isMain  =>
    if (s.workers.heap id).isSome then s
    else
      let ws := s.workers.update id (some {})
      { s with workers := if isMain then { ws with mainWorker := some id } else { ws with workers := ws.workers ++ [id] } }
  | .init id index      => { s with workers := s.workers.modify id fun w => w.init index }
  | .onStart id         => { s with workers := s.workers.modify id Worker.onStart }
  | .posted id n        => { s with workers := s.workers.post id (.other n) }
  | .routed router      => { s with router := router }
  | .registered hs      => { s with handlers := hs }

/-- The tasks of a session for a worker. -/
def ofSession (id : WorkerId) (session : SessionId) (l : List (WorkerId × WorkerTask)) : List WorkerTask :=
  (l.filter fun x => x.1 = id ∧ x.2.session = some session).map Prod.snd

/-- The tasks of a session in the queue of a worker. -/
def queued (ws : Workers WorkerTask) (id : WorkerId) (session : SessionId) : List WorkerTask :=
  (ws.tasks id).filter fun task => task.session = some session

/-- What an IO thread has in its hand. -/
def held (io : Nat) : List (WorkerId × WorkerTask) := ((s.inHand io).bind Dispatched.task).toList

/-- For each worker, the messages of a session have been started in the order of `on_received`, each once; those that have
not are in the queue and in the hand of the IO thread, in that order. -/
def InOrder (s : OrderedNetwork) : Prop := ∀ id session, ofSession id session s.received =
  ofSession id session s.started ++ queued s.workers id session ++ ofSession id session (s.held (ioOf session))

/-- The condition on a step: a message comes to a worker that is running. -/
def ToRunning (s : OrderedNetwork) : OrderedEvent → Prop
  | .dispatched io => ∀ x ∈ s.held io, (s.workers.heap x.1).any Worker.runing = true
  | _              => True

/-- A frame of a worker: so many times `OnUpdate` takes a task out of the queue, each time the one that is chosen. -/
def frame (s : OrderedNetwork) (id : WorkerId) (choice : Nat → Nat) (n : Nat) : OrderedNetwork :=
  ((List.range n).map fun (i : Nat) => OrderedEvent.worked id (choice i)).foldl (step ioOf) s

/-- As long as tasks are left, the queue gives one out. -/
def Gives (s : OrderedNetwork) (id : WorkerId) (choice : Nat → Nat) : Prop :=
  ∀ n < (s.workers.tasks id).length, choice n < ((s.frame ioOf id choice n).workers.tasks id).length ∧
    Next (producer ioOf) ((s.frame ioOf id choice n).workers.tasks id) (choice n)

/-- All messages of the sessions that a worker was given have started on it, in the order of `on_received`. -/
def AllStarted (s : OrderedNetwork) (id : WorkerId) : Prop := ∀ session,
  ofSession id session s.received = ofSession id session s.started ++ ofSession id session (s.held (ioOf session))

/-- What the IO threads have in their hands comes from the router and is about their sessions, and no worker is shutting
down. -/
structure Dispatching (s : OrderedNetwork) : Prop where
  executors : ∀ io executor call, s.inHand io = some (.execute executor call) → FromRouter executor call
  sessions  : ∀ io, ∀ x ∈ s.held io, ∃ session, x.2.session = some session ∧ ioOf session = io
  workers   : ∀ id w, s.workers.heap id = some w → w.shuttingDown = false

theorem Dispatching.init : Dispatching ioOf {} where
  executors := nofun
  sessions  := nofun
  workers   := nofun

variable {ioOf s}

/-! ## The tasks of a session -/

theorem ofSession_append (id : WorkerId) (session : SessionId) (l l' : List (WorkerId × WorkerTask)) :
    ofSession id session (l ++ l') = ofSession id session l ++ ofSession id session l' := by
  unfold ofSession
  rw [List.filter_append, List.map_append]

theorem ofSession_singleton (id : WorkerId) (session : SessionId) (x : WorkerId × WorkerTask) :
    ofSession id session [x] = if x.1 = id ∧ x.2.session = some session then [x.2] else [] := by
  unfold ofSession
  rw [List.filter_singleton]
  by_cases h : x.1 = id ∧ x.2.session = some session
  · rw [if_pos h, decide_eq_true h]
    rfl
  · rw [if_neg h, decide_eq_false h]
    rfl

theorem ofSession_nil (id : WorkerId) (session : SessionId) : ofSession id session [] = [] := rfl

theorem inOrder_workers {ws : Workers WorkerTask} (h : ∀ id session, queued ws id session = queued s.workers id session) :
    InOrder ioOf { s with workers := ws } ↔ InOrder ioOf s := by
  refine forall₂_congr fun id session => ?_
  rw [← h id session]
  rfl

/-! ## A task comes into a queue -/

theorem tasks_post_of_not {ws : Workers WorkerTask} {id : WorkerId} (h : (ws.heap id).any Worker.runing = false)
    (task : WorkerTask) (j : WorkerId) : (ws.post id task).tasks j = ws.tasks j := by
  by_cases hj : j = id
  · subst hj
    unfold Workers.post Workers.modify
    rw [Workers.tasks_update_self, Workers.tasks]
    cases hw : ws.heap j with
    | none   => rfl
    | some w =>
      rw [hw] at h
      have hrefused : w.accepts false = false := by
        unfold Worker.accepts
        split
        · rfl
        · exact h
      simp [Worker.post, Worker.enqueueTask, hrefused]
  · exact ws.tasks_modify_of_ne hj _

theorem tasks_post_of_running {ws : Workers WorkerTask} {id : WorkerId} {w : Worker WorkerTask} (hw : ws.heap id = some w)
    (hrunning : w.runing = true) (hshut : w.shuttingDown = false) (task : WorkerTask) :
    (ws.post id task).tasks id = ws.tasks id ++ [task] := by
  have haccepts : w.accepts false = true := by
    unfold Worker.accepts
    rw [hshut, Bool.and_false, if_neg Bool.false_ne_true, hrunning]
  unfold Workers.post Workers.modify
  rw [Workers.tasks_update_self, Workers.tasks, hw]
  simp [Worker.post, Worker.enqueueTask, haccepts, Worker.enqueue]

theorem tasks_post_of_ne {ws : Workers WorkerTask} {id j : WorkerId} (hj : j ≠ id) (task : WorkerTask) :
    (ws.post id task).tasks j = ws.tasks j := ws.tasks_modify_of_ne hj _

/-- What an IO thread gives goes to the worker of the task, if there is one. -/
theorem give_cases (h : Dispatching ioOf s) {io : Nat} {d : Dispatched} (hd : s.inHand io = some d) :
    (d.task = none ∧ (s.give io d).workers = s.workers) ∨
      ∃ id task, d.task = some (id, task) ∧ ((s.give io d).workers = s.workers.post id task ∨
        (s.give io d).workers = s.workers ∧ (s.workers.heap id).any Worker.runing = false) := by
  cases d with
  | execute executor call =>
    have hdispatch : executor.dispatch_ = none := by
      rcases h.executors io executor call hd with ⟨-, rfl⟩ | ⟨id, ready, -, rfl⟩ <;> rfl
    rcases @WorkerExecutor.dispatch_io _ s.workers executor hdispatch io (.handler call) with
      ⟨id, hworker, -, heq⟩ | ⟨hgone, heq⟩
    · refine .inr ⟨id, .handler call, ?_, .inl (congrArg Prod.snd heq)⟩
      rw [Dispatched.task_execute, hworker]
      rfl
    · cases hworker : executor.worker with
      | none    =>
        refine .inl ⟨?_, congrArg Prod.snd heq⟩
        rw [Dispatched.task_execute, hworker]
        rfl
      | some id =>
        refine .inr ⟨id, .handler call, ?_, .inr ⟨congrArg Prod.snd heq, ?_⟩⟩
        · rw [Dispatched.task_execute, hworker]
          rfl
        · rw [Option.not_isSome_iff_eq_none.1 (Bool.eq_false_iff.1 (hgone id hworker))]
          rfl
  | post id task          => exact .inr ⟨id, task, rfl, .inl rfl⟩
  | nothing               => exact .inl ⟨rfl, rfl⟩

/-- What comes into the queue of the task's worker. -/
theorem queued_give (h : Dispatching ioOf s) {io : Nat} {d : Dispatched} (hd : s.inHand io = some d) (id : WorkerId)
    (session : SessionId) : queued (s.give io d).workers id session = queued s.workers id session ++
      ofSession id session (d.task.filter fun x => (s.workers.heap x.1).any Worker.runing).toList := by
  rcases give_cases h hd with ⟨htask, hworkers⟩ | ⟨id', task, htask, hgive⟩
  · rw [htask, hworkers]
    exact (List.append_nil _).symm
  · rw [htask]
    cases hrunning : (s.workers.heap id').any Worker.runing with
    | false =>
      have hsame : (s.give io d).workers.tasks id = s.workers.tasks id := by
        rcases hgive with hpost | ⟨hworkers, -⟩
        · rw [hpost]
          exact tasks_post_of_not hrunning task id
        · rw [hworkers]
      unfold queued
      rw [hsame, Option.filter_some, hrunning]
      exact (List.append_nil _).symm
    | true  =>
      obtain ⟨w, hw, hw'⟩ := (Option.any_eq_true _ _).1 hrunning
      have hpost : (s.give io d).workers = s.workers.post id' task :=
        hgive.resolve_right fun hr => Bool.false_ne_true (hr.2.symm.trans hrunning)
      rw [Option.filter_some, hrunning, if_pos rfl]
      change _ = _ ++ ofSession id session [(id', task)]
      rw [hpost, ofSession_singleton]
      unfold queued
      by_cases hid : id = id'
      · subst hid
        rw [tasks_post_of_running hw hw' (h.workers id w hw), List.filter_append, List.filter_singleton]
        by_cases hsession : task.session = some session
        · rw [if_pos ⟨rfl, hsession⟩, decide_eq_true hsession]
          rfl
        · rw [if_neg fun hc => hsession hc.2, decide_eq_false hsession]
          rfl
      · rw [tasks_post_of_ne hid, if_neg fun hc => hid hc.1.symm, List.append_nil]

/-- **A message that an IO thread gives away is kept exactly if its worker is running.** -/
theorem inOrder_dispatched_iff (h : Dispatching ioOf s) (hsafe : InOrder ioOf s) (io : Nat) :
    InOrder ioOf (step ioOf s (.dispatched io)) ↔ s.ToRunning (.dispatched io) := by
  dsimp only [step, ToRunning]
  cases hd : s.inHand io with
  | none   =>
    refine iff_of_true hsafe fun x hx => ?_
    unfold held at hx
    rw [hd] at hx
    cases hx
  | some d =>
    have hheld : s.held io = d.task.toList := by
      unfold held
      rw [hd]
      rfl
    have hreceived : (s.give io d).received = s.received ∧ (s.give io d).started = s.started := by
      cases d <;> exact ⟨rfl, rfl⟩
    have hhand (session : SessionId) : held { s.give io d with inHand := Function.update s.inHand io none } (ioOf session) =
        if ioOf session = io then [] else s.held (ioOf session) := by
      change ((Function.update s.inHand io none (ioOf session)).bind Dispatched.task).toList = _
      split
      · rename_i heq
        rw [heq, Function.update_self]
        rfl
      · rename_i hne
        rw [Function.update_of_ne hne]
        rfl
    have hother (id : WorkerId) {session : SessionId} (hne : ioOf session ≠ io) : ofSession id session d.task.toList = [] := by
      unfold ofSession
      rw [List.map_eq_nil_iff, List.filter_eq_nil_iff]
      intro x hx hcond
      obtain ⟨session', hsession', hio⟩ := h.sessions io x (hheld ▸ hx)
      rw [decide_eq_true_eq, hsession'] at hcond
      rw [← Option.some.inj hcond.2] at hne
      exact hne hio
    -- what was in the hand has come into the queue
    have hafter (id : WorkerId) (session : SessionId) :
        ofSession id session (s.give io d).received = ofSession id session (s.give io d).started ++
            queued (s.give io d).workers id session ++
            ofSession id session (held { s.give io d with inHand := Function.update s.inHand io none } (ioOf session)) ↔
          (ioOf session = io → ofSession id session d.task.toList =
            ofSession id session (d.task.filter fun x => (s.workers.heap x.1).any Worker.runing).toList) := by
      rw [hreceived.1, hreceived.2, queued_give h hd, hhand, hsafe id session, List.append_assoc, List.append_assoc,
        List.append_assoc, List.append_right_inj, List.append_right_inj]
      by_cases hio : ioOf session = io
      · rw [if_pos hio, imp_iff_right hio, hio, hheld, ofSession_nil, List.append_nil]
      · rw [if_neg hio]
        refine iff_of_true ?_ fun heq => absurd heq hio
        have hnone := hother id hio
        have hnone' : ofSession id session (d.task.filter fun x => (s.workers.heap x.1).any Worker.runing).toList = [] := by
          cases htask : d.task with
          | none   => rfl
          | some x =>
            rw [htask] at hnone
            rw [Option.filter_some]
            split
            · exact hnone
            · rfl
        rw [hnone', List.nil_append]
    refine (forall₂_congr hafter).trans ?_
    rw [hheld]
    constructor
    · intro hall x hx
      obtain ⟨session, hsession, hio⟩ := h.sessions io x (hheld ▸ hx)
      have hsame := hall x.1 session hio
      rw [Option.mem_toList.1 hx, Option.filter_some] at hsame
      by_contra hrunning
      rw [if_neg hrunning] at hsame
      have hone := ofSession_singleton x.1 session x
      rw [if_pos ⟨rfl, hsession⟩] at hone
      exact absurd (hone.symm.trans hsame) (List.cons_ne_nil _ _)
    · intro hrunning id session _
      cases htask : d.task with
      | none   => rfl
      | some x =>
        rw [Option.filter_some, if_pos (hrunning x (htask ▸ List.mem_singleton_self x))]

/-- A message is received into the hand of its IO thread. -/
theorem networkDispatch_session (ws : Workers WorkerTask) (r : Router) (hs : Handlers) (session : SessionId) (m : Meta) :
    ∀ x ∈ (networkDispatch ws r hs session m).task.toList, x.2.session = some session := by
  have hexecute (executor : WorkerExecutor WorkerTask) (handler : HandlerId) :
      ∀ x ∈ (Dispatched.execute executor ⟨handler, session, m, selectedWorker ws r m⟩).task.toList,
        x.2.session = some session := by
    intro x hx
    rw [Dispatched.task_execute] at hx
    obtain ⟨id, -, rfl⟩ := Option.map_eq_some_iff.1 (Option.mem_toList.1 hx)
    rfl
  unfold networkDispatch
  dsimp only
  split
  · cases hs.findListenFunction m.type with
    | none         => exact nofun
    | some handler => exact hexecute _ handler
  · split
    · cases hs.findRpcFunction m.method with
      | none         => exact nofun
      | some handler => exact hexecute _ handler
    · split
      · cases ws.getWorker (SequenceId.ofValue m.sequence).index with
        | none    => exact nofun
        | some id =>
          intro x hx
          obtain rfl := List.mem_singleton.1 hx
          rfl
      · exact nofun

theorem inOrder_received (hsafe : InOrder ioOf s) (session : SessionId) (m : Meta) :
    InOrder ioOf (step ioOf s (.received session m)) := by
  dsimp only [step]
  cases hd : s.inHand (ioOf session) with
  | some d => exact hsafe
  | none   =>
    intro id session'
    have hbefore := hsafe id session'
    change ofSession id session' (s.received ++ _) = ofSession id session' s.started ++ queued s.workers id session' ++
      ofSession id session' (((Function.update s.inHand (ioOf session) (some _)) (ioOf session')).bind Dispatched.task).toList
    rw [ofSession_append, hbefore]
    by_cases hio : ioOf session' = ioOf session
    · rw [hio, Function.update_self]
      unfold held
      rw [hd]
      change _ ++ [] ++ _ = _
      rw [List.append_nil]
      rfl
    · rw [Function.update_of_ne hio]
      have hnone : ofSession id session' (networkDispatch s.workers s.router s.handlers session m).task.toList = [] := by
        unfold ofSession
        rw [List.map_eq_nil_iff, List.filter_eq_nil_iff]
        intro x hx hcond
        rw [decide_eq_true_eq, networkDispatch_session s.workers s.router s.handlers session m x hx] at hcond
        rw [Option.some.inj hcond.2] at hio
        exact hio rfl
      rw [hnone, List.append_nil]
      rfl

/-- **A worker starts the first of its tasks of a session.** -/
theorem inOrder_worked (hsafe : InOrder ioOf s) (id : WorkerId) (k : Nat) : InOrder ioOf (step ioOf s (.worked id k)) := by
  dsimp only [step]
  split
  · rename_i hnext
    cases hk : (s.workers.tasks id)[k]? with
    | none      => exact hsafe
    | some task =>
      have htasks (j : WorkerId) : (s.workers.modify id fun w => { w with events := w.events.eraseIdx k }).tasks j =
          if j = id then (s.workers.tasks id).eraseIdx k else s.workers.tasks j := by
        split
        · rename_i hj
          subst hj
          unfold Workers.modify
          rw [Workers.tasks_update_self, Workers.tasks]
          cases s.workers.heap j <;> rfl
        · rename_i hj
          exact s.workers.tasks_modify_of_ne hj _
      intro j session
      have hbefore := hsafe j session
      change ofSession j session s.received = ofSession j session (s.started ++ [(id, task)]) ++
        queued (s.workers.modify id fun w => { w with events := w.events.eraseIdx k }) j session ++
          ofSession j session (s.held (ioOf session))
      rw [hbefore, ofSession_append, ofSession_singleton]
      unfold queued
      rw [htasks]
      by_cases hj : j = id
      · subst hj
        rw [if_pos rfl]
        by_cases hsession : task.session = some session
        · rw [if_pos ⟨rfl, hsession⟩, List.append_assoc (ofSession j session s.started) [task],
            List.singleton_append]
          rw [filter_eraseIdx hnext.2 hk (decide_eq_true hsession) (ioOf session) fun a ha => ?_]
          unfold producer
          rw [of_decide_eq_true ha, Option.map_some]
        · rw [if_neg fun hc => hsession hc.2, List.append_nil, ← filter_eraseIdx_of_not hk (decide_eq_false hsession)]
      · rw [if_neg hj, if_neg fun hc => hj hc.1.symm, List.append_nil]
  · exact hsafe

theorem tasks_modify_of_events (ws : Workers WorkerTask) (id : WorkerId) {f : Worker WorkerTask → Worker WorkerTask}
    (hf : ∀ w, (f w).events = w.events) (j : WorkerId) : (ws.modify id f).tasks j = ws.tasks j := by
  by_cases hj : j = id
  · subst hj
    unfold Workers.modify
    rw [Workers.tasks_update_self, Workers.tasks, Option.map_map]
    exact congrArg (fun o : Option (List WorkerTask) => o.getD []) (congrArg (Option.map · _) (funext hf))
  · exact ws.tasks_modify_of_ne hj f

/-- Other posters do not come between the tasks of a session. -/
theorem queued_post_other (ws : Workers WorkerTask) (id : WorkerId) (n : Nat) (j : WorkerId) (session : SessionId) :
    queued (ws.post id (.other n)) j session = queued ws j session := by
  unfold queued
  by_cases hj : j = id
  · subst hj
    unfold Workers.post Workers.modify
    rw [Workers.tasks_update_self, Workers.tasks]
    cases ws.heap j with
    | none   => rfl
    | some w =>
      change (w.post (.other n)).events.filter _ = w.events.filter _
      unfold Worker.post Worker.enqueueTask
      split
      · exact (List.filter_append ..).trans (List.append_nil _)
      · rfl
  · rw [tasks_post_of_ne hj]

theorem tasks_create {ws : Workers WorkerTask} {id : WorkerId} (hnew : ws.heap id = none) (j : WorkerId) :
    (ws.update id (some {})).tasks j = ws.tasks j := by
  by_cases hj : j = id
  · subst hj
    rw [Workers.tasks_update_self, Workers.tasks, hnew]
    rfl
  · exact ws.tasks_update_of_ne hj _

theorem inOrder_step_iff (h : Dispatching ioOf s) (hsafe : InOrder ioOf s) (e : OrderedEvent) :
    InOrder ioOf (step ioOf s e) ↔ s.ToRunning e := by
  cases e with
  | dispatched io      => exact inOrder_dispatched_iff h hsafe io
  | received session m => exact iff_of_true (inOrder_received hsafe session m) trivial
  | worked id k        => exact iff_of_true (inOrder_worked hsafe id k) trivial
  | created id isMain  =>
    refine iff_of_true ?_ trivial
    dsimp only [step]
    split
    · exact hsafe
    · rename_i hnew
      refine (inOrder_workers fun j session => ?_).2 hsafe
      have hcreate := tasks_create (Option.not_isSome_iff_eq_none.1 hnew) j
      unfold queued
      rw [← hcreate]
      cases isMain <;> rfl
  | init id index      =>
    refine iff_of_true ((inOrder_workers fun j session => ?_).2 hsafe) trivial
    exact congrArg (List.filter _) (tasks_modify_of_events s.workers id (f := fun w => w.init index) (fun _ => rfl) j)
  | onStart id         =>
    refine iff_of_true ((inOrder_workers fun j session => ?_).2 hsafe) trivial
    exact congrArg (List.filter _) (tasks_modify_of_events s.workers id (f := Worker.onStart) (fun _ => rfl) j)
  | posted id n        => exact iff_of_true ((inOrder_workers (queued_post_other s.workers id n)).2 hsafe) trivial
  | routed router      => exact iff_of_true hsafe trivial
  | registered hs      => exact iff_of_true hsafe trivial

/-! ## Frames -/

/-- A running worker that takes a task has one less. -/
theorem length_worked {id : WorkerId} {k : Nat} (hrunning : (s.workers.heap id).any Worker.runing = true)
    (hk : k < (s.workers.tasks id).length) (hnext : Next (producer ioOf) (s.workers.tasks id) k) :
    ((step ioOf s (.worked id k)).workers.tasks id).length + 1 = (s.workers.tasks id).length ∧
      ((step ioOf s (.worked id k)).workers.heap id).any Worker.runing = true := by
  obtain ⟨w, hw, hw'⟩ := (Option.any_eq_true _ _).1 hrunning
  have htasks : s.workers.tasks id = w.events := by
    rw [Workers.tasks, hw]
    rfl
  dsimp only [step]
  rw [if_pos ⟨hrunning, hnext⟩, List.getElem?_eq_getElem hk]
  change ((Workers.modify _ _ _).tasks id).length + 1 = _ ∧ ((Workers.modify _ _ _).heap id).any Worker.runing = true
  unfold Workers.modify
  rw [Workers.tasks_update_self, hw]
  refine ⟨?_, ?_⟩
  · rw [htasks] at hk ⊢
    change (w.events.eraseIdx k).length + 1 = w.events.length
    rw [List.length_eraseIdx_of_lt hk]
    omega
  · change (Function.update s.workers.heap id _ id).any Worker.runing = true
    rw [Function.update_self]
    exact hw'

theorem frame_succ (s : OrderedNetwork) (id : WorkerId) (choice : Nat → Nat) (n : Nat) :
    s.frame ioOf id choice (n + 1) = step ioOf (s.frame ioOf id choice n) (.worked id (choice n)) := by
  unfold frame
  rw [List.range_succ, List.map_append, List.foldl_append]
  rfl

/-- **As many steps as there are tasks empty the queue of a running worker.** -/
theorem tasks_frame {id : WorkerId} {choice : Nat → Nat} (hrunning : (s.workers.heap id).any Worker.runing = true)
    (hgives : s.Gives ioOf id choice) : ∀ n ≤ (s.workers.tasks id).length,
      ((s.frame ioOf id choice n).workers.tasks id).length + n = (s.workers.tasks id).length ∧
        ((s.frame ioOf id choice n).workers.heap id).any Worker.runing = true
  | 0,     _  => ⟨rfl, hrunning⟩
  | n + 1, hn => by
    obtain ⟨hlength, hrunning'⟩ := tasks_frame hrunning hgives n (Nat.le_of_succ_le hn)
    obtain ⟨hk, hnext⟩ := hgives n hn
    obtain ⟨hone, hstill⟩ := length_worked hrunning' hk hnext
    rw [frame_succ]
    exact ⟨by omega, hstill⟩

theorem inOrder_frame (hsafe : InOrder ioOf s) (id : WorkerId) (choice : Nat → Nat) : ∀ n,
    InOrder ioOf (s.frame ioOf id choice n)
  | 0     => hsafe
  | n + 1 => by
    rw [frame_succ]
    exact inOrder_worked (inOrder_frame hsafe id choice n) id (choice n)

theorem allStarted_frame (hsafe : InOrder ioOf s) {id : WorkerId} {choice : Nat → Nat}
    (hrunning : (s.workers.heap id).any Worker.runing = true) (hgives : s.Gives ioOf id choice) :
    (s.frame ioOf id choice (s.workers.tasks id).length).AllStarted ioOf id := by
  intro session
  have hempty : (s.frame ioOf id choice (s.workers.tasks id).length).workers.tasks id = [] := by
    have hlength := (tasks_frame hrunning hgives _ (Nat.le_refl _)).1
    exact List.eq_nil_of_length_eq_zero (by omega)
  have horder := inOrder_frame hsafe id choice (s.workers.tasks id).length id session
  unfold queued at horder
  rwa [hempty, List.filter_nil, List.append_nil] at horder

/-! ## Runs -/

theorem Dispatching.of_workers {t : OrderedNetwork} (h : Dispatching ioOf s) (hinHand : t.inHand = s.inHand)
    (hworkers : ∀ id w, t.workers.heap id = some w → w.shuttingDown = false) : Dispatching ioOf t where
  executors := hinHand ▸ h.executors
  sessions  := fun io x hx => h.sessions io x (by unfold held at hx ⊢; rwa [hinHand] at hx)
  workers   := hworkers

/-- No step begins a shutdown. -/
theorem shuttingDown_modify {ws : Workers WorkerTask} (h : ∀ id w, ws.heap id = some w → w.shuttingDown = false)
    (id : WorkerId) {f : Worker WorkerTask → Worker WorkerTask} (hf : ∀ w, (f w).shuttingDown = w.shuttingDown) :
    ∀ j w, (ws.modify id f).heap j = some w → w.shuttingDown = false := by
  intro j w hw
  change Function.update ws.heap id ((ws.heap id).map f) j = some w at hw
  by_cases hj : j = id
  · subst hj
    rw [Function.update_self] at hw
    obtain ⟨old, hold, rfl⟩ := Option.map_eq_some_iff.1 hw
    rw [hf]
    exact h j old hold
  · rw [Function.update_of_ne hj] at hw
    exact h j w hw

theorem post_shuttingDown (w : Worker WorkerTask) (task : WorkerTask) : (w.post task).shuttingDown = w.shuttingDown := by
  unfold Worker.post Worker.enqueueTask
  split <;> rfl

/-- Whatever an IO thread gives, no worker begins to shut down. -/
theorem shuttingDown_give (h : Dispatching ioOf s) {io : Nat} {d : Dispatched} (hd : s.inHand io = some d) :
    ∀ id w, (s.give io d).workers.heap id = some w → w.shuttingDown = false := by
  rcases give_cases h hd with ⟨-, hsame⟩ | ⟨id, task, -, hpost | ⟨hsame, -⟩⟩
  · exact hsame ▸ h.workers
  · rw [hpost]
    exact shuttingDown_modify h.workers id fun w => post_shuttingDown w task
  · exact hsame ▸ h.workers

/-- The message that comes into the hand of an IO thread is from the router, and of one of its sessions. -/
theorem Dispatching.received (h : Dispatching ioOf s) (session : SessionId) (m : Meta) :
    Dispatching ioOf (s.step ioOf (.received session m)) := by
  dsimp only [OrderedNetwork.step]
  cases hd : s.inHand (ioOf session) with
  | some d => exact h
  | none   =>
    refine ⟨fun io executor call hcall => ?_, fun io x hx => ?_, h.workers⟩
    · by_cases hio : io = ioOf session
      · subst hio
        have hnew : networkDispatch s.workers s.router s.handlers session m = .execute executor call := by
          simpa only [Function.update_self, Option.some.injEq] using hcall
        rcases networkDispatch_cases s.workers s.router s.handlers session m with
          ⟨executor', call', heq, hfrom⟩ | ⟨id, seq, heq⟩ | heq
        · obtain ⟨rfl, rfl⟩ : executor' = executor ∧ call' = call := by
            simpa only [Dispatched.execute.injEq] using heq.symm.trans hnew
          exact hfrom
        · cases heq.symm.trans hnew
        · cases heq.symm.trans hnew
      · refine h.executors io executor call ?_
        simpa only [Function.update_of_ne hio] using hcall
    · by_cases hio : io = ioOf session
      · subst hio
        refine ⟨session, networkDispatch_session s.workers s.router s.handlers session m x ?_, rfl⟩
        simpa only [held, Function.update_self, Option.bind_some] using hx
      · refine h.sessions io x ?_
        simpa only [held, Function.update_of_ne hio] using hx

/-- The hand of an IO thread is empty after it. -/
theorem Dispatching.dispatched (h : Dispatching ioOf s) (io : Nat) : Dispatching ioOf (s.step ioOf (.dispatched io)) := by
  dsimp only [OrderedNetwork.step]
  cases hd : s.inHand io with
  | none   => exact h
  | some d =>
    refine ⟨fun io' executor call hcall => ?_, fun io' x hx => ?_, shuttingDown_give h hd⟩
    · by_cases hio : io' = io
      · subst hio
        simp only [Function.update_self, reduceCtorEq] at hcall
      · refine h.executors io' executor call ?_
        simpa only [Function.update_of_ne hio] using hcall
    · by_cases hio : io' = io
      · subst hio
        simp only [held, Function.update_self, Option.bind_none, Option.toList_none, List.not_mem_nil] at hx
      · refine h.sessions io' x ?_
        simpa only [held, Function.update_of_ne hio] using hx

theorem Dispatching.step (h : Dispatching ioOf s) (e : OrderedEvent) : Dispatching ioOf (s.step ioOf e) := by
  cases e with
  | received session m => exact h.received session m
  | dispatched io      => exact h.dispatched io
  | worked id k        =>
    dsimp only [OrderedNetwork.step]
    split
    · split
      · exact h.of_workers rfl (shuttingDown_modify h.workers id fun _ => rfl)
      · exact h
    · exact h
  | created id isMain  =>
    dsimp only [OrderedNetwork.step]
    split
    · exact h
    · refine h.of_workers rfl fun j w hw => ?_
      have hw' : Function.update s.workers.heap id (some {}) j = some w := by
        cases isMain <;> exact hw
      by_cases hj : j = id
      · subst hj
        rw [Function.update_self] at hw'
        obtain rfl := Option.some.inj hw'
        rfl
      · rw [Function.update_of_ne hj] at hw'
        exact h.workers j w hw'
  | init id index      => exact h.of_workers rfl (shuttingDown_modify h.workers id fun _ => rfl)
  | onStart id         => exact h.of_workers rfl (shuttingDown_modify h.workers id fun _ => rfl)
  | posted id n        => exact h.of_workers rfl (shuttingDown_modify h.workers id fun w => post_shuttingDown w (.other n))
  | routed router      => exact h.of_workers rfl h.workers
  | registered hs      => exact h.of_workers rfl h.workers

/-- **The handlers of each session start on each worker in the order of `on_received`, each once, in every state of a run
exactly if every message comes to a worker that is running; and then a frame of a running worker starts all that the worker
was given.** -/
theorem run_inOrder_iff (ioOf : SessionId → Nat) (es : List OrderedEvent) :
    (Always (step ioOf) (InOrder ioOf) {} es ↔ Along (step ioOf) ToRunning {} es) ∧
      (Along (step ioOf) ToRunning {} es → ∀ (s : OrderedNetwork) (id : WorkerId) (choice : Nat → Nat),
        s = es.foldl (step ioOf) {} → (s.workers.heap id).any Worker.runing = true → s.Gives ioOf id choice →
        (s.frame ioOf id choice (s.workers.tasks id).length).AllStarted ioOf id) := by
  have horder : Always (step ioOf) (InOrder ioOf) {} es ↔ Along (step ioOf) ToRunning {} es :=
    Run.always_iff_along (fun _ e h _ => h.step e) (fun _ e h hsafe => inOrder_step_iff h hsafe e) es (.init ioOf)
      fun _ _ => rfl
  refine ⟨horder, fun hrunning s id choice hs hw hgives => ?_⟩
  subst hs
  have hlast : InOrder ioOf (es.foldl (step ioOf) {}) := by
    have h := Run.always_iff_take.1 (horder.2 hrunning) es.length
    rwa [List.take_length] at h
  exact allStarted_frame hlast hw hgives

/-- Two messages of a session and a task from elsewhere, for a worker that has been started. -/
def startedRun : List OrderedEvent :=
  [.created 5 false, .init 5 1, .onStart 5, .routed ((({} : Router).registerWorker swtNormal 5).freeze),
    .registered { listenFunctionMap := fun _ => some 7 }, .received 0 entityMeta, .dispatched 0, .posted 5 1,
    .received 0 entityMeta, .dispatched 0]

/-- The queue gives the task from elsewhere first. -/
theorem run_inOrder_started : ((startedRun.foldl (step fun _ => 0) {}).frame (fun _ => 0) 5 (fun n => if n = 0 then 1 else 0)
    3).AllStarted (fun _ => 0) 5 := by
  have hrunning : Along (step fun _ => 0) ToRunning {} startedRun := by
    refine ⟨trivial, trivial, trivial, trivial, trivial, trivial, ?_, trivial, trivial, ?_, trivial⟩
    · change ∀ x ∈ _, _ = true
      decide
    · change ∀ x ∈ _, _ = true
      decide
  have hgives : (startedRun.foldl (step fun _ => 0) {}).Gives (fun _ => 0) 5 fun n => if n = 0 then 1 else 0 := by
    unfold Gives
    decide
  exact (run_inOrder_iff (fun _ => 0) startedRun).2 hrunning _ 5 _ rfl (by decide) hgives

/-- A listener, and a worker that `CreateWorker` made and the router knows; a message for it comes while its thread is
between `Init` and `OnStart`. -/
def earlyRun : List OrderedEvent :=
  [.created 5 false, .routed ((({} : Router).registerWorker swtNormal 5).freeze),
    .registered { listenFunctionMap := fun _ => some 7 }, .init 5 1, .received 0 entityMeta, .dispatched 0, .onStart 5]

theorem not_run_inOrder :
    ¬∀ (ioOf : SessionId → Nat) (es : List OrderedEvent), Always (step ioOf) (InOrder ioOf) {} es := by
  intro h
  have horder := Run.always_iff_take.1 (h (fun _ => 0) earlyRun) 7 5 0
  exact absurd horder (by decide)

end OrderedNetwork

end Gb
