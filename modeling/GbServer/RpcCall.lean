import GbServer.Lib.Run
import GbServer.NetworkDispatch
/-!
# RpcCall — calls, responses, timeouts and cancellations

`RpcCall` (`rpc_call.cpp`) with `NetworkManager::CallImpl` and the responses of `NetworkManager::Dispatch`.  A call is
completed by whoever moves its state from `Pending`; the rest of what an operation does comes in actions, between which
the other threads act.  The workers are named by their indices, the main worker first; a worker is there once `Init` has
run.  A call is its object, with its callback set; `generation` counts the calls of `Call` on it.  The last fields of an
`RpcSystem` are what has happened: the states that were left, the callbacks that ran, the numbers that calls were given,
the requests that were sent with them, and the responses that took a waiting call from its worker.
-/
namespace Gb

abbrev CallId := Nat

inductive RpcState
  | pending
  | completed
  | timeout
  | cancelled
  | invalidRequest
  deriving DecidableEq

/-- What a call came to: the session of its response, or its error. -/
inductive Outcome
  | response (session : SessionId) (m : Meta)
  | timeout
  | cancel
  | invalidRequest
  deriving DecidableEq

def Outcome.state : Outcome → RpcState
  | response _ _   => .completed
  | timeout        => .timeout
  | cancel         => .cancelled
  | invalidRequest => .invalidRequest

structure RpcCall where
  id          : Nat := 0
  workerIndex : Nat := 0
  localSeq    : Nat := 0
  timerHandle : Bool := false
  state       : RpcState := .pending
  session     : Option SessionId := none
  generation  : Nat := 0

/-- One `Call` on a call object. -/
abbrev CallRun := CallId × Nat

inductive RpcTask
  | response (session : SessionId) (m : Meta) (localSeq : Nat)
  | timeout (call : CallRun)
  | other (n : Nat)
  deriving DecidableEq

/-- A part of an operation that other threads see whole. -/
inductive Action
  | startTimer (call : CallRun) (m : Meta)
  | send (call : CallRun) (m : Meta)
  | done (call : CallId) (session : SessionId) (m : Meta)
  | take (call : CallId)
  | stopTimer (call : CallId)
  | callback (call : CallRun) (outcome : Outcome)
  | postTimeout (call : CallRun)
  | post (worker : Nat) (task : RpcTask)
  | enqueue (worker : Nat) (task : RpcTask)
  deriving DecidableEq

def Action.isSend : Action → Bool
  | send _ _ => true
  | _        => false

/-- An `async_wait` that has not been cancelled; `fired` is that its handler is queued, which nothing cancels. -/
structure Wait where
  call  : CallId
  fired : Bool := false
  deriving DecidableEq

structure RpcSystem where
  workers  : List (Worker RpcTask) := []
  calls    : CallId → RpcCall := fun _ => {}
  waits    : List Wait := []
  ops      : List (Thread × List Action) := []
  left     : List (CallRun × Outcome) := []
  ran      : List (CallRun × Outcome) := []
  numbered : List (CallRun × Nat) := []
  sent     : List (CallRun × SessionId × Nat) := []
  taken    : List (CallRun × SessionId) := []

namespace RpcSystem

def modifyCall (s : RpcSystem) (c : CallId) (f : RpcCall → RpcCall) : RpcSystem :=
  { s with calls := Function.update s.calls c (f (s.calls c)) }

/-- The `compare_exchange_strong` of the state, for what completes a call. -/
def complete (s : RpcSystem) (c : CallId) (outcome : Outcome) : Option (CallRun × RpcSystem) :=
  if (s.calls c).state = .pending then
    let run := (c, (s.calls c).generation)
    some (run, { s.modifyCall c fun call => { call with state := outcome.state } with left := (run, outcome) :: s.left })
  else none

/-- `cancel` of a timer: the waits whose handlers are queued stay. -/
def cancelWaits (s : RpcSystem) (c : CallId) : RpcSystem :=
  { s with waits := s.waits.filter fun wait => wait.call ≠ c ∨ wait.fired }

/-- `StopTimer`. -/
def stopTimer (s : RpcSystem) (c : CallId) : RpcSystem :=
  if (s.calls c).timerHandle then (s.cancelWaits c).modifyCall c fun call => { call with timerHandle := false } else s

/-- `Session::Send` of a request, if there is a session. -/
def send (s : RpcSystem) (run : CallRun) (m : Meta) : RpcSystem :=
  match (s.calls run.1).session with
  | some session => { s with sent := (run, session, m.sequence) :: s.sent }
  | none         => s

/-- The end of an operation that completed a call. -/
def finish (run : CallRun) (outcome : Outcome) : List Action := [.stopTimer run.1, .callback run outcome]

/-- One action: what it does, and what is to do next. -/
def act (s : RpcSystem) : Action → RpcSystem × List Action
  | .startTimer run m =>
    let call := s.calls run.1
    if call.session = none ∨ call.timerHandle = false then
      match s.complete run.1 .invalidRequest with
      | some (run', s') => (s', .take run.1 :: finish run' .invalidRequest ++ [.send run m])
      | none            => (s, [.send run m])
    else
      -- `expires_after` cancels the waits of the timer
      ({ s.cancelWaits run.1 with waits := ⟨run.1, false⟩ :: (s.cancelWaits run.1).waits }.send run m, [])
  | .send run m => (s.send run m, [])
  | .done c session m =>
    match s.complete c (.response session m) with
    | some (run, s') => (s', finish run (.response session m))
    | none           => (s, [])
  | .take c =>
    let call := s.calls c
    ({ s with workers := s.workers.modify call.workerIndex fun w => (w.takePendingRpc call.localSeq).2 }, [])
  | .stopTimer c => (s.stopTimer c, [])
  | .callback run outcome => ({ s with ran := (run, outcome) :: s.ran }, [])
  | .postTimeout run =>
    let workerIndex := (s.calls run.1).workerIndex
    if workerIndex < s.workers.length then (s, [.post workerIndex (.timeout run)]) else (s, [])
  | .post worker task =>
    if (s.workers[worker]?).any fun w => w.accepts false then (s, [.enqueue worker task]) else (s, [])
  | .enqueue worker task => ({ s with workers := s.workers.modify worker fun w => w.enqueue task }, [])

/-- What a task does on the thread of its worker. -/
def runTask (s : RpcSystem) (worker : Nat) : RpcTask → RpcSystem × List Action
  | .response session m localSeq =>
    match (s.workers[worker]?).bind fun w => (w.takePendingRpc localSeq).1 with
    | some c =>
      let taken := if (s.calls c).state = .pending then ((c, (s.calls c).generation), session) :: s.taken else s.taken
      ({ s with workers := s.workers.modify worker fun w => (w.takePendingRpc localSeq).2, taken := taken },
        [.done c session m])
    | none   => (s, [])
  | .timeout run => (s, .take run.1 :: finish run .timeout)
  | .other _     => (s, [])

/-- An operation begins on a thread. -/
def begin (s : RpcSystem) (thread : Thread) (actions : List Action) : RpcSystem :=
  { s with ops := (thread, actions) :: s.ops }

/-- A thread has nothing left to do. -/
def Idle (s : RpcSystem) (thread : Thread) : Prop := ∀ op ∈ s.ops, op.1 = thread → op.2 = []

instance (s : RpcSystem) (thread : Thread) : Decidable (s.Idle thread) :=
  inferInstanceAs (Decidable (∀ op ∈ s.ops, op.1 = thread → op.2 = []))

/-- A thread is in no operation, or in the callback of a request that was refused. -/
def MayCall (s : RpcSystem) (thread : Thread) : Prop :=
  ∀ op ∈ s.ops, op.1 = thread → op.2.all Action.isSend = true

instance (s : RpcSystem) (thread : Thread) : Decidable (s.MayCall thread) :=
  inferInstanceAs (Decidable (∀ op ∈ s.ops, op.1 = thread → op.2.all Action.isSend = true))

/-- `NetworkManager::CallImpl` on the thread of a worker, up to `StartTimer`. -/
def callImpl (s : RpcSystem) (worker : Nat) (c : CallId) (m : Meta) : RpcSystem :=
  match s.workers[worker]? with
  | some w =>
    let localSeq := w.allocRpcSeq.1
    let sid := SequenceId.value ⟨worker, localSeq⟩
    let run := (c, (s.calls c).generation + 1)
    let stored := { s with workers := s.workers.modify worker fun w => w.allocRpcSeq.2.storePendingRpc localSeq c
                           numbered := (run, sid) :: s.numbered }
    (stored.modifyCall c fun call =>
      { call with id := sid, workerIndex := worker, localSeq := localSeq, state := .pending,
                  generation := call.generation + 1 }).begin (.worker worker) [.startTimer run (m.withSequence sid)]
  | none => s

end RpcSystem

/-- A step of one thread. -/
inductive RpcEvent
  | created
  | changed (worker : Nat) (event : WorkerEvent)
  | posted (worker : Nat) (n : Nat)
  | setSession (call : CallId) (session : Option SessionId)
  | setTimeout (call : CallId) (hasSession : Bool)
  | called (worker : Nat) (call : CallId) (m : Meta)
  | cancelled (thread : Thread) (call : CallId)
  | received (io : Nat) (session : SessionId) (m : Meta)
  | fired (k : Nat)
  | expired (io : Nat) (k : Nat)
  | worked (worker : Nat) (k : Nat)
  | acted (k : Nat)

namespace RpcSystem

def step (s : RpcSystem) : RpcEvent → RpcSystem
  | .created =>
    if s.workers.length < 2 ^ 32 then
      { s with workers := s.workers ++ [{ index := s.workers.length, executor := true }] }
    else s
  | .changed _ (.init _) => s
  | .changed worker event => { s with workers := s.workers.modify worker fun w => event.apply w }
  | .posted worker n => { s with workers := s.workers.modify worker fun w => w.post (.other n) }
  | .setSession c session =>
    s.modifyCall c fun call =>
      { call with session := session, timerHandle := call.timerHandle || session.isSome }
  | .setTimeout c hasSession =>
    s.modifyCall c fun call => { call with timerHandle := call.timerHandle || (call.session.isSome && hasSession) }
  | .called worker c m => if s.MayCall (.worker worker) then s.callImpl worker c m else s
  | .cancelled thread c =>
    match s.complete c .cancel with
    | some (run, s') => s'.begin thread (.take c :: finish run .cancel)
    | none           => s
  | .received io session m =>
    let sid := SequenceId.ofValue m.sequence
    if m.mode = MsgMode.response ∧ sid.index < s.workers.length then
      s.begin (.io io) [.post sid.index (.response session m sid.seq)]
    else s
  | .fired k => { s with waits := s.waits.modify k fun wait => { wait with fired := true } }
  | .expired io k =>
    match s.waits[k]? with
    | some wait =>
      if wait.fired then
        let s := { s with waits := s.waits.eraseIdx k }
        match s.complete wait.call .timeout with
        | some (run, s') => s'.begin (.io io) [.postTimeout run]
        | none           => s
      else s
    | none => s
  | .worked worker k =>
    match s.workers[worker]? with
    | some w =>
      if w.exited = false ∧ s.Idle (.worker worker) then
        match w.events[k]? with
        | some task =>
          let s := { s with workers := s.workers.modify worker fun w => { w with events := w.events.eraseIdx k } }
          let (s', actions) := s.runTask worker task
          s'.begin (.worker worker) actions
        | none => s
      else s
    | none => s
  | .acted k =>
    match s.ops[k]? with
    | some (thread, action :: rest) =>
      let (s', next) := s.act action
      { s' with ops := s.ops.set k (thread, next ++ rest) }
    | _ => s

end RpcSystem

end Gb
