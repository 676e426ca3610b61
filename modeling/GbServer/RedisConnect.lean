import GbServer.RedisCommands
import Mathlib.Logic.Function.Basic
/-!
# RedisConnect — how a Redis connection is made

`Connect` of `RedisConnection` (`redis_connection.cpp`) posts `StartConnectChain` and waits for a promise; the rest happens on
the thread of the `io_context`: the tasks in the order they were posted, and what hiredis reports of the sockets.  The
handshake goes through `PostCommand`, which answers "not connected" until `connected_` is set, which is what the handshake
ends with (`quiet_step`): no `Connect` ends connected.

Attempts and contexts are numbered.  Of an attempt, `sets` is what its promise was set to, `failed` is whether
`StartConnectChain` or its socket has failed, and `socketConnected` is whether its context reported a connected socket.
-/
namespace Gb

open Run (Along Always)

/-- An index of -1 is for no `SELECT`. -/
structure RedisConfig where
  dbIndex : Int := 0

structure ConnectChain where
  sets            : List Bool := []
  done            : Bool := false
  step            : Nat := 0
  failed          : Bool := false
  socketConnected : Bool := false

inductive RedisCallback
  | command (op : Nat)
  | ping (chain : Nat)
  | hello (chain : Nat)
  | select (chain : Nat)

inductive RedisTask
  | startConnectChain (chain : Nat)
  | failConnect
  | disconnectInternal

/-- A `redisAsyncContext`; `broken` is one that `redisAsyncConnect` returns with an error. -/
inductive ContextState
  | broken
  | connecting
  | connected
  | freed

structure RedisContext where
  state : ContextState
  chain : Nat

/-- What `redisAsyncConnect` comes to: null, a context with an error, one without a descriptor, or one that connects. -/
inductive ConnectOutcome
  | null
  | error
  | noFd
  | started

/-- What the server replies to the handshake. -/
structure RedisServer where
  ping   : RedisReply
  hello  : RedisReply
  select : RedisReply

/-- A `Connect` that its promise ended. -/
structure ConnectEnd where
  chain     : ConnectChain
  config    : RedisConfig
  connected : Bool

/-- `caller` is the attempt whose future `Connect` waits for.  After an exception, or when a context is freed twice, the
connection is left as it is. -/
structure RedisConnection where
  config       : RedisConfig := {}
  commands     : RedisCommands RedisCallback := {}
  ctxAlive     : Bool := false
  connectState : Option Nat := none
  chains       : Nat → ConnectChain := fun _ => {}
  connects     : Nat := 0
  contexts     : List RedisContext := []
  tasks        : List RedisTask := []
  caller       : Option Nat := none
  ended        : List ConnectEnd := []
  crashed      : Bool := false

inductive ConnectEvent
  | connect (cfg : RedisConfig)
  | returned
  | timedOut
  | disconnect
  | runTask (outcome : ConnectOutcome)
  | socket (context : Nat) (ok : Bool)
  | disconnected (context : Nat)
  | reply (other : RedisReply)
  | post (op : Nat) (accepted : Bool)

namespace RedisConnection

variable (s : RedisConnection)

def chain (c : Nat) : ConnectChain := s.chains c

def setChain (c : Nat) (chain : ConnectChain) : RedisConnection := { s with chains := Function.update s.chains c chain }

def setConnected (connected : Bool) : RedisConnection := { s with commands := { s.commands with connected := connected } }

def setAsyncCtx (asyncCtx : Option Nat) : RedisConnection := { s with commands := { s.commands with asyncCtx := asyncCtx } }

/-- `promise.set_value`, which throws at the second time. -/
def setValue (c : Nat) (ok : Bool) : RedisConnection :=
  { s.setChain c { s.chain c with sets := (s.chain c).sets ++ [ok] } with crashed := s.crashed || !(s.chain c).sets.isEmpty }

/-- Where `done` is not looked at, and not set. -/
def fail (c : Nat) : RedisConnection :=
  let s := s.setValue c false
  s.setChain c { s.chain c with failed := true }

def finish (c : Nat) (ok : Bool) : RedisConnection :=
  let s := s.setValue c ok
  let s := s.setChain c { s.chain c with done := true }
  if ok then s.setConnected true else s

/-! ## The handshake -/

/-- `PostCommand`, with what the callback does if it is called at once. -/
def post (onReply : RedisCallback) (accepted : Bool) (run : RedisValue → RedisConnection → RedisConnection) : RedisConnection :=
  match s.commands.postCommand onReply accepted with
  | (some value, commands) => run value { s with commands := commands }
  | (none, commands)       => { s with commands := commands }

def onSelectReply (c : Nat) (r : RedisValue) (s : RedisConnection) : RedisConnection :=
  if r.isError then s.finish c false else s.finish c true

/-- `OnConnectStep`, case 2. -/
def connectStep2 (c : Nat) (accepted : Bool) : RedisConnection :=
  if 0 < s.config.dbIndex then s.post (.select c) accepted (onSelectReply c) else s.finish c true

def onHelloReply (c : Nat) (accepted : Bool) (_ : RedisValue) (s : RedisConnection) : RedisConnection :=
  let s := s.setChain c { s.chain c with step := 2 }
  if (s.chain c).done then s else s.connectStep2 c accepted

/-- `OnConnectStep`, case 1. -/
def connectStep1 (c : Nat) (accepted : Bool) : RedisConnection := s.post (.hello c) accepted (onHelloReply c accepted)

def onPingReply (c : Nat) (accepted : Bool) (r : RedisValue) (s : RedisConnection) : RedisConnection :=
  if r.isError then s.finish c false
  else
    let s := s.setChain c { s.chain c with step := 1 }
    if (s.chain c).done then s else s.connectStep1 c accepted

/-- `OnConnectStep`, case 0. -/
def connectStep0 (c : Nat) (accepted : Bool) : RedisConnection := s.post (.ping c) accepted (onPingReply c accepted)

def onConnectStep (c : Nat) (accepted : Bool) : RedisConnection :=
  if (s.chain c).done then s
  else
    match (s.chain c).step with
    | 0 => s.connectStep0 c accepted
    | 1 => s.connectStep1 c accepted
    | 2 => s.connectStep2 c accepted
    | _ => s.finish c true

/-- `CommandCallback`. -/
def commandCallback (r : Option RedisReply) (accepted : Bool) : RedisConnection :=
  let value := RedisCommands.replyValue r
  match s.commands.pendingCb with
  | none    => { s with crashed := true }
  | some cb =>
    let s :=
      match cb with
      | .command _ => s
      | .ping c    => onPingReply c accepted value s
      | .hello c   => onHelloReply c accepted value s
      | .select c  => onSelectReply c value s
    { s with commands := { s.commands with pendingCb := none } }

/-! ## What hiredis reports -/

def onConnectStatus (ok : Bool) : RedisConnection :=
  match s.connectState with
  | none   => s
  | some c => if ok then s.onConnectStep c true else s.fail c

def onDisconnectStatus : RedisConnection :=
  let s := { s.setConnected false with ctxAlive := false }
  match s.connectState with
  | none   => s
  | some c => if (s.chain c).done then s else s.finish c false

/-- Null replies to the commands outstanding. -/
def flush : RedisConnection :=
  s.commands.outstanding.foldl (fun s _ => s.commandCallback none false)
    { s with commands := { s.commands with outstanding := [] } }

def setContext (n : Nat) (state : ContextState) : RedisConnection :=
  { s with contexts := s.contexts.modify n fun context => { context with state := state } }

def contextState (n : Nat) : Option ContextState := (s.contexts[n]?).map RedisContext.state

/-- `redisAsyncFree`, which reports the disconnect of a socket that was connected. -/
def redisAsyncFree (n : Nat) : RedisConnection :=
  match s.contextState n with
  | some .connected => (s.flush.onDisconnectStatus).setContext n .freed
  | some .freed     => { s with crashed := true }
  | _               => s.flush.setContext n .freed

/-! ## The tasks -/

def startConnectChain (c : Nat) : ConnectOutcome → RedisConnection
  | .null    => (s.setAsyncCtx none).fail c
  | .error   => (setAsyncCtx { s with contexts := s.contexts ++ [⟨.broken, c⟩] } (some s.contexts.length)).fail c
  | .noFd    => (s.setAsyncCtx none).fail c
  | .started =>
    setAsyncCtx { s with contexts := s.contexts ++ [⟨.connecting, c⟩], ctxAlive := true } (some s.contexts.length)

/-- The context is freed and forgotten. -/
def freeContext : RedisConnection :=
  match s.commands.asyncCtx with
  | none   => s
  | some n => (s.redisAsyncFree n).setAsyncCtx none

def failConnect : RedisConnection := { s.freeContext with ctxAlive := false, connectState := none }

def disconnectInternal : RedisConnection :=
  setConnected { s.freeContext with ctxAlive := false, connectState := none } false

def runTask (outcome : ConnectOutcome) : RedisTask → RedisConnection
  | .startConnectChain c => s.startConnectChain c outcome
  | .failConnect         => s.failConnect
  | .disconnectInternal  => s.disconnectInternal

/-! ## The caller -/

def disconnect : RedisConnection := { s.setConnected false with tasks := s.tasks ++ [.disconnectInternal] }

/-- `Connect` up to the wait. -/
def connect (cfg : RedisConfig) : RedisConnection :=
  let s := { s.setConnected false with config := cfg }
  let s := if s.ctxAlive then s.disconnect else s
  { s with
    connects     := s.connects + 1
    connectState := some s.connects
    tasks        := s.tasks ++ [.startConnectChain s.connects]
    caller       := some s.connects }

/-- The future is ready. -/
def returned (c : Nat) : RedisConnection :=
  match (s.chain c).sets.head? with
  | none    => s
  | some ok =>
    { s.setConnected ok with caller := none, ended := s.ended ++ [⟨s.chain c, s.config, ok⟩] }

def handshakeReply (server : RedisServer) (other : RedisReply) : RedisCallback → RedisReply
  | .command _ => other
  | .ping _    => server.ping
  | .hello _   => server.hello
  | .select _  => server.select

def step (server : RedisServer) (s : RedisConnection) (e : ConnectEvent) : RedisConnection :=
  if s.crashed then s
  else
    match e with
    | .connect cfg      => if s.caller = none then s.connect cfg else s
    | .returned         =>
      match s.caller with
      | some c => s.returned c
      | none   => s
    | .timedOut         =>
      match s.caller with
      | some _ => { s with caller := none, tasks := s.tasks ++ [.failConnect] }
      | none   => s
    | .disconnect       => if s.caller = none then s.disconnect else s
    | .runTask outcome  =>
      match s.tasks with
      | []            => s
      | task :: tasks => runTask { s with tasks := tasks } outcome task
    | .socket n ok      =>
      match s.contexts[n]? with
      | some ⟨.connecting, c⟩ =>
        if ok then
          ((s.setContext n .connected).setChain c { s.chain c with socketConnected := true }).onConnectStatus true
        else (s.onConnectStatus false).setContext n .freed
      | _                     => s
    | .disconnected n   =>
      match s.contextState n with
      | some .connected => (s.flush.onDisconnectStatus).setContext n .freed
      | _               => s
    | .reply other      =>
      match s.commands.outstanding with
      | []                => s
      | cb :: outstanding =>
        commandCallback { s with commands := { s.commands with outstanding := outstanding } }
          (some (handshakeReply server other cb)) true
    | .post op accepted => s.post (.command op) accepted fun _ s => s

/-! ## What the code keeps up -/

/-- No promise was set twice. -/
def Once : Prop := ∀ c, (s.chains c).sets.length ≤ 1

/-- Nothing was ever sent: no step of the handshake has come about, and no promise was set to success. -/
structure Quiet : Prop where
  connected   : s.commands.connected = false
  outstanding : s.commands.outstanding = []
  step        : ∀ c, (s.chains c).step = 0
  sets        : ∀ c, ∀ ok ∈ (s.chains c).sets, ok = false
  answered    : ∀ c, (s.chains c).sets = [] ↔ (s.chains c).done = false ∧ (s.chains c).failed = false

/-- The promise is not set: the attempt is neither done nor has it failed. -/
def CanFail (c : Nat) : Prop := (s.chains c).done = false ∧ (s.chains c).failed = false

/-- The current attempt has not failed, or it is done and `done` is looked at. -/
def CanHear : Prop := ∀ c, s.connectState = some c → (s.chains c).done = false → (s.chains c).failed = false

variable {s}

theorem quiet_congr (h : s.Quiet) {s' : RedisConnection} (hchains : s'.chains = s.chains)
    (hconnected : s'.commands.connected = false) (hout : s'.commands.outstanding = []) : s'.Quiet :=
  ⟨hconnected, hout, hchains ▸ h.step, hchains ▸ h.sets, hchains ▸ h.answered⟩

theorem once_congr {s' : RedisConnection} (hchains : s'.chains = s.chains) : s'.Once ↔ s.Once := by
  rw [Once, Once, hchains]

/-- One chain is replaced. -/
theorem once_setChain_iff (ho : s.Once) {s' : RedisConnection} {c : Nat} {chain : ConnectChain}
    (hchains : s'.chains = Function.update s.chains c chain) : s'.Once ↔ chain.sets.length ≤ 1 := by
  rw [Once, hchains]
  constructor
  · intro h
    have hc := h c
    rwa [Function.update_self] at hc
  · intro h c'
    by_cases heq : c' = c
    · rw [heq, Function.update_self]
      exact h
    · rw [Function.update_of_ne heq]
      exact ho c'

theorem chains_fail (s : RedisConnection) (c : Nat) : (s.fail c).chains =
    Function.update s.chains c { s.chains c with sets := (s.chains c).sets ++ [false], failed := true } := by
  simp [fail, setValue, setChain, chain]

theorem chains_finish (s : RedisConnection) (c : Nat) (ok : Bool) : (s.finish c ok).chains =
    Function.update s.chains c { s.chains c with sets := (s.chains c).sets ++ [ok], done := true } := by
  cases ok <;> simp [finish, setValue, setChain, setConnected, chain]

theorem once_append_iff (hq : s.Quiet) (c : Nat) : ((s.chains c).sets ++ [false]).length ≤ 1 ↔ s.CanFail c := by
  rw [CanFail, ← hq.answered, List.length_append, List.length_singleton, ← List.length_eq_zero_iff]
  omega

theorem once_fail_iff (hq : s.Quiet) (ho : s.Once) (c : Nat) : (s.fail c).Once ↔ s.CanFail c :=
  (once_setChain_iff ho (chains_fail s c)).trans (once_append_iff hq c)

theorem once_finish_iff (hq : s.Quiet) (ho : s.Once) (c : Nat) : (s.finish c false).Once ↔ s.CanFail c :=
  (once_setChain_iff ho (chains_finish s c false)).trans (once_append_iff hq c)

/-- A chain whose promise is set. -/
theorem Quiet.setChain (h : s.Quiet) {s' : RedisConnection} {c : Nat} {chain : ConnectChain}
    (hchains : s'.chains = Function.update s.chains c chain) (hcommands : s'.commands = s.commands) (hstep : chain.step = 0)
    (hsets : ∀ ok ∈ chain.sets, ok = false) (hanswered : chain.sets = [] ↔ chain.done = false ∧ chain.failed = false) :
    s'.Quiet := by
  have hcase : ∀ P : ConnectChain → Prop, P chain → (∀ c', P (s.chains c')) → ∀ c', P (s'.chains c') := by
    intro P hc hrest c'
    rw [hchains]
    by_cases heq : c' = c
    · rw [heq, Function.update_self]
      exact hc
    · rw [Function.update_of_ne heq]
      exact hrest c'
  exact ⟨hcommands ▸ h.connected, hcommands ▸ h.outstanding, hcase (fun chain => chain.step = 0) hstep h.step,
    hcase (fun chain => ∀ ok ∈ chain.sets, ok = false) hsets h.sets,
    hcase (fun chain => chain.sets = [] ↔ chain.done = false ∧ chain.failed = false) hanswered h.answered⟩

theorem Quiet.all_false (h : s.Quiet) (c : Nat) : ∀ ok ∈ (s.chains c).sets ++ [false], ok = false := by
  intro ok hok
  rcases List.mem_append.1 hok with hok | hok
  · exact h.sets c ok hok
  · exact List.mem_singleton.1 hok

theorem Quiet.fail (h : s.Quiet) (c : Nat) : (s.fail c).Quiet :=
  h.setChain (chains_fail s c) rfl (h.step c) (h.all_false c) (by simp)

theorem Quiet.finish (h : s.Quiet) (c : Nat) : (s.finish c false).Quiet :=
  h.setChain (chains_finish s c false) rfl (h.step c) (h.all_false c) (by simp)

/-! ## The handshake never begins -/

theorem post_eq (h : s.Quiet) (onReply : RedisCallback) (accepted : Bool)
    (run : RedisValue → RedisConnection → RedisConnection) : s.post onReply accepted run = run (.error "not connected") s := by
  simp [post, RedisCommands.postCommand, h.connected]

/-- `PING` is refused, since the connection is not connected yet. -/
theorem onConnectStep_eq (h : s.Quiet) (c : Nat) (accepted : Bool) :
    s.onConnectStep c accepted = if (s.chains c).done then s else s.finish c false := by
  rw [onConnectStep, chain]
  split
  · rfl
  · rw [h.step c]
    simp only [connectStep0, post_eq h, onPingReply, RedisValue.isError, if_true]

theorem flush_eq (h : s.Quiet) : s.flush = s := by
  rw [flush, h.outstanding]
  simp only [List.foldl_nil]
  rw [← h.outstanding]

theorem setConnected_eq (h : s.Quiet) : s.setConnected false = s := by
  rw [setConnected, ← h.connected]

theorem quiet_ifDone (h : s.Quiet) (c : Nat) : (if (s.chains c).done then s else s.finish c false).Quiet := by
  split
  · exact h
  · exact h.finish c

theorem once_ifDone_iff (h : s.Quiet) (ho : s.Once) (c : Nat) : (if (s.chains c).done then s else s.finish c false).Once ↔
    ((s.chains c).done = false → (s.chains c).failed = false) := by
  split
  · rename_i hdone
    exact iff_of_true ho fun hnot => absurd (hnot.symm.trans hdone) Bool.false_ne_true
  · rename_i hdone
    rw [once_finish_iff h ho, CanFail]
    have hfalse : (s.chains c).done = false := Bool.eq_false_iff.2 hdone
    exact ⟨fun hand _ => hand.2, fun hfailed => ⟨hfalse, hfailed hfalse⟩⟩

/-- From `s` to `s'` no `Connect` ends, and the promises are set at most once exactly if `P` holds. -/
structure Sets (s s' : RedisConnection) (P : Prop) : Prop where
  quiet : s'.Quiet
  ended : s'.ended = s.ended
  once  : s'.Once ↔ P

theorem Sets.frame {P : Prop} {s' : RedisConnection} (h : Sets s s' P) {s'' : RedisConnection}
    (hchains : s''.chains = s'.chains) (hconnected : s''.commands.connected = false)
    (hout : s''.commands.outstanding = []) (hended : s''.ended = s'.ended) : Sets s s'' P where
  quiet := quiet_congr h.quiet hchains hconnected hout
  ended := hended.trans h.ended
  once  := (once_congr hchains).trans h.once

theorem sets_refl (h : s.Quiet) (ho : s.Once) : Sets s s True := ⟨h, rfl, iff_of_true ho trivial⟩

theorem sets_fail (h : s.Quiet) (ho : s.Once) (c : Nat) : Sets s (s.fail c) (s.CanFail c) :=
  ⟨h.fail c, rfl, once_fail_iff h ho c⟩

theorem sets_ifDone (h : s.Quiet) (ho : s.Once) (c : Nat) : Sets s (if (s.chains c).done then s else s.finish c false)
    ((s.chains c).done = false → (s.chains c).failed = false) := by
  refine ⟨quiet_ifDone h c, ?_, once_ifDone_iff h ho c⟩
  split <;> rfl

theorem sets_onDisconnectStatus (h : s.Quiet) (ho : s.Once) : Sets s s.onDisconnectStatus s.CanHear := by
  have hquiet : Quiet { s with ctxAlive := false } := quiet_congr h rfl h.connected h.outstanding
  rw [onDisconnectStatus, setConnected_eq h, CanHear]
  dsimp only
  split
  · rename_i hnone
    exact ⟨hquiet, rfl, iff_of_true ho (by simp [hnone])⟩
  · rename_i c hsome
    have hsets := sets_ifDone hquiet ho c
    refine ⟨hsets.quiet, hsets.ended, hsets.once.trans ?_⟩
    simp [hsome]

theorem sets_onConnectStatus (h : s.Quiet) (ho : s.Once) (ok : Bool) : Sets s (s.onConnectStatus ok)
    (if ok then s.CanHear else ∀ c, s.connectState = some c → s.CanFail c) := by
  rw [onConnectStatus, CanHear]
  cases hstate : s.connectState with
  | none   => exact ⟨h, rfl, iff_of_true ho (by simp)⟩
  | some c =>
    cases ok with
    | false =>
      have hsets := sets_fail h ho c
      exact ⟨hsets.quiet, hsets.ended, hsets.once.trans (by simp)⟩
    | true  =>
      have hsets := sets_ifDone h ho c
      simp only [if_true, onConnectStep_eq h]
      exact ⟨hsets.quiet, hsets.ended, hsets.once.trans (by simp)⟩

/-- Whoever hears of the disconnect of a context that was connected. -/
def Hears (s : RedisConnection) (n : Nat) : Prop := s.contextState n = some .connected → s.CanHear

theorem Quiet.setContext (h : s.Quiet) (n : Nat) (state : ContextState) : (s.setContext n state).Quiet :=
  quiet_congr h rfl h.connected h.outstanding

theorem sets_redisAsyncFree (h : s.Quiet) (ho : s.Once) (n : Nat) : Sets s (s.redisAsyncFree n) (s.Hears n) := by
  rw [redisAsyncFree, flush_eq h, Hears]
  split
  · rename_i hstate
    have hsets := sets_onDisconnectStatus h ho
    have hframe : Sets s (s.onDisconnectStatus.setContext n .freed) _ := hsets.frame rfl hsets.quiet.connected
      hsets.quiet.outstanding rfl
    exact ⟨hframe.quiet, hframe.ended, hframe.once.trans (by simp [hstate])⟩
  · rename_i hstate
    exact ⟨quiet_congr h rfl h.connected h.outstanding, rfl, iff_of_true ho (by simp [hstate])⟩
  · rename_i hnot _
    exact ⟨h.setContext n .freed, rfl, iff_of_true ho fun hstate => absurd hstate hnot⟩

theorem sets_freeContext (h : s.Quiet) (ho : s.Once) :
    Sets s s.freeContext (∀ n, s.commands.asyncCtx = some n → s.Hears n) := by
  rw [freeContext]
  cases hctx : s.commands.asyncCtx with
  | none   => exact ⟨h, rfl, iff_of_true ho (by simp)⟩
  | some n =>
    have hsets := sets_redisAsyncFree h ho n
    have hframe : Sets s ((s.redisAsyncFree n).setAsyncCtx none) _ := hsets.frame rfl hsets.quiet.connected
      hsets.quiet.outstanding rfl
    exact ⟨hframe.quiet, hframe.ended, hframe.once.trans (by simp)⟩

theorem sets_startConnectChain (h : s.Quiet) (ho : s.Once) (c : Nat) (outcome : ConnectOutcome) :
    Sets s (s.startConnectChain c outcome) (outcome ≠ .started → s.CanFail c) := by
  have hquiet : ∀ ctx contexts alive,
      (setAsyncCtx { s with contexts := contexts, ctxAlive := alive } ctx).Quiet :=
    fun _ _ _ => quiet_congr h rfl h.connected h.outstanding
  cases outcome with
  | null    =>
    have hsets := sets_fail (hquiet none s.contexts s.ctxAlive) ho c
    exact ⟨hsets.quiet, hsets.ended, hsets.once.trans (by simp [CanFail, setAsyncCtx])⟩
  | error   =>
    have hsets := sets_fail (hquiet (some s.contexts.length) (s.contexts ++ [⟨.broken, c⟩]) s.ctxAlive) ho c
    exact ⟨hsets.quiet, hsets.ended, hsets.once.trans (by simp [CanFail, setAsyncCtx])⟩
  | noFd    =>
    have hsets := sets_fail (hquiet none s.contexts s.ctxAlive) ho c
    exact ⟨hsets.quiet, hsets.ended, hsets.once.trans (by simp [CanFail, setAsyncCtx])⟩
  | started => exact ⟨hquiet _ _ _, rfl, iff_of_true ho (by simp)⟩

/-- The condition on a task. -/
def RunsTask (s : RedisConnection) (outcome : ConnectOutcome) : RedisTask → Prop
  | .startConnectChain c => outcome ≠ .started → s.CanFail c
  | _                    => ∀ n, s.commands.asyncCtx = some n → s.Hears n

theorem sets_runTask (h : s.Quiet) (ho : s.Once) (outcome : ConnectOutcome) (task : RedisTask) :
    Sets s (s.runTask outcome task) (s.RunsTask outcome task) := by
  have hfree := sets_freeContext h ho
  cases task with
  | startConnectChain c => exact sets_startConnectChain h ho c outcome
  | failConnect         => exact hfree.frame rfl hfree.quiet.connected hfree.quiet.outstanding rfl
  | disconnectInternal  => exact hfree.frame rfl rfl hfree.quiet.outstanding rfl

/-! ## One step -/

/-- The server replies to `PING` without an error, and to `SELECT` where an index is configured. -/
def RedisServer.Willing (server : RedisServer) (cfg : RedisConfig) : Prop :=
  (RedisValue.fromReply server.ping).isError = false ∧
  (0 < cfg.dbIndex → (RedisValue.fromReply server.select).isError = false)

/-- Every promise was set at most once; and where the socket connected and the server is willing, `Connect` ended with the
connection marked connected. -/
structure Handshaken (server : RedisServer) (s : RedisConnection) : Prop where
  once      : s.Once
  connected : ∀ e ∈ s.ended, e.chain.socketConnected = true → RedisServer.Willing server e.config → e.connected = true

/-- The condition on a step.  An attempt fails, in `StartConnectChain` or at its socket, only while it is not done and has
not failed; a context that was connected disconnects, and one connects, only while the current attempt has not failed, or
is done; and no attempt ends whose socket has connected to a willing server. -/
def Meets (server : RedisServer) (s : RedisConnection) : ConnectEvent → Prop
  | .returned        => ∀ c, s.caller = some c → (s.chains c).sets ≠ [] → (s.chains c).socketConnected = true →
      ¬RedisServer.Willing server s.config
  | .runTask outcome => ∀ task, s.tasks.head? = some task → s.RunsTask outcome task
  | .socket n ok     => ∀ c, s.contexts[n]? = some ⟨.connecting, c⟩ →
      if ok then s.CanHear else ∀ c, s.connectState = some c → s.CanFail c
  | .disconnected n  => s.Hears n
  | _                => True

def Proceeds (server : RedisServer) (s : RedisConnection) (e : ConnectEvent) : Prop := s.crashed = true ∨ Meets server s e

theorem Sets.handshaken_iff {P : Prop} {s' : RedisConnection} (h : Sets s s' P) {server : RedisServer}
    (hs : Handshaken server s) : Handshaken server s' ↔ P := by
  constructor
  · exact fun h' => h.once.1 h'.once
  · exact fun hP => ⟨h.once.2 hP, h.ended ▸ hs.connected⟩

theorem sets_connect (h : s.Quiet) (ho : s.Once) (cfg : RedisConfig) : Sets s (s.connect cfg) True := by
  rw [connect, setConnected_eq h]
  dsimp only
  split
  · exact (sets_refl h ho).frame rfl rfl h.outstanding rfl
  · exact (sets_refl h ho).frame rfl h.connected h.outstanding rfl

theorem sets_socket (h : s.Quiet) (ho : s.Once) (n c : Nat) :
    Sets s (((s.setContext n .connected).setChain c { s.chain c with socketConnected := true }).onConnectStatus true)
      s.CanHear := by
  have hchains : ((s.setContext n .connected).setChain c { s.chain c with socketConnected := true }).chains =
      Function.update s.chains c { s.chains c with socketConnected := true } := rfl
  have hquiet : ((s.setContext n .connected).setChain c { s.chain c with socketConnected := true }).Quiet :=
    h.setChain hchains rfl (h.step c) (h.sets c) (h.answered c)
  have hsets := sets_onConnectStatus hquiet ((once_setChain_iff ho hchains).2 (ho c)) true
  refine ⟨hsets.quiet, hsets.ended, hsets.once.trans ?_⟩
  -- the flags of the chain that are looked at are the same
  have hdone : ∀ c', (Function.update s.chains c { s.chains c with socketConnected := true } c').done = (s.chains c').done := by
    intro c'
    by_cases heq : c' = c
    · rw [heq, Function.update_self]
    · rw [Function.update_of_ne heq]
  have hfailed : ∀ c', (Function.update s.chains c { s.chains c with socketConnected := true } c').failed =
      (s.chains c').failed := by
    intro c'
    by_cases heq : c' = c
    · rw [heq, Function.update_self]
    · rw [Function.update_of_ne heq]
  simp only [if_true, CanHear, hchains, hdone, hfailed]
  rfl

theorem sets_step (server : RedisServer) (h : s.Quiet) (ho : s.Once) (hcrashed : s.crashed = false) {e : ConnectEvent}
    (hne : e ≠ .returned) : Sets s (s.step server e) (s.Meets server e) := by
  rw [step.eq_def, if_neg (Bool.eq_false_iff.1 hcrashed)]
  cases e with
  | connect cfg      =>
    dsimp only
    split
    · exact sets_connect h ho cfg
    · exact sets_refl h ho
  | returned         => exact absurd rfl hne
  | timedOut         =>
    dsimp only
    split
    · exact (sets_refl h ho).frame rfl h.connected h.outstanding rfl
    · exact sets_refl h ho
  | disconnect       =>
    dsimp only
    split
    · exact (sets_refl h ho).frame rfl rfl h.outstanding rfl
    · exact sets_refl h ho
  | runTask outcome  =>
    rw [Meets]
    cases htasks : s.tasks with
    | nil             => exact ⟨h, rfl, iff_of_true ho (by simp)⟩
    | cons task tasks =>
      have hquiet : Quiet { s with tasks := tasks } := quiet_congr h rfl h.connected h.outstanding
      have hsets := sets_runTask hquiet ho outcome task
      refine ⟨hsets.quiet, hsets.ended, hsets.once.trans ?_⟩
      simp only [List.head?_cons, Option.some.injEq, forall_eq']
      cases task <;> exact Iff.rfl
  | socket n ok      =>
    rw [Meets]
    dsimp only
    split
    · rename_i c hcontext
      cases ok with
      | true  =>
        have hsets := sets_socket h ho n c
        exact ⟨hsets.quiet, hsets.ended, hsets.once.trans (by simp [hcontext])⟩
      | false =>
        have hsets := sets_onConnectStatus h ho false
        have hframe : Sets s ((s.onConnectStatus false).setContext n .freed) _ := hsets.frame rfl hsets.quiet.connected
          hsets.quiet.outstanding rfl
        exact ⟨hframe.quiet, hframe.ended, hframe.once.trans (by simp [hcontext])⟩
    · rename_i hnot
      exact ⟨h, rfl, iff_of_true ho fun c hcontext => absurd hcontext (hnot c)⟩
  | disconnected n   =>
    rw [Meets, Hears]
    dsimp only
    split
    · rename_i hstate
      rw [flush_eq h]
      have hsets := sets_onDisconnectStatus h ho
      have hframe : Sets s (s.onDisconnectStatus.setContext n .freed) _ := hsets.frame rfl hsets.quiet.connected
        hsets.quiet.outstanding rfl
      exact ⟨hframe.quiet, hframe.ended, hframe.once.trans (by simp [hstate])⟩
    · rename_i hnot
      exact ⟨h, rfl, iff_of_true ho fun hstate => absurd hstate hnot⟩
  | reply other      =>
    dsimp only
    split
    · exact sets_refl h ho
    · rename_i hout
      rw [h.outstanding] at hout
      cases hout
  | post op accepted =>
    dsimp only
    rw [post_eq h]
    exact sets_refl h ho

/-- The promise of a `Connect` that ends was set to failure. -/
theorem returned_eq (h : s.Quiet) (c : Nat) : s.returned c =
    if (s.chains c).sets = [] then s
    else { s with caller := none, ended := s.ended ++ [⟨s.chains c, s.config, false⟩] } := by
  rw [returned, chain]
  cases hsets : (s.chains c).sets with
  | nil           => rfl
  | cons ok rest =>
    have hok : ok = false := h.sets c ok (hsets ▸ List.mem_cons_self)
    simp only [List.head?_cons, hok, setConnected_eq h, reduceCtorEq, if_false]

theorem handshaken_returned_iff {server : RedisServer} (h : s.Quiet) (hs : Handshaken server s) (c : Nat) :
    Handshaken server (s.returned c) ↔ ((s.chains c).sets ≠ [] → (s.chains c).socketConnected = true →
      ¬RedisServer.Willing server s.config) := by
  rw [returned_eq h]
  split
  · rename_i hnil
    exact iff_of_true hs fun hne => absurd hnil hne
  · rename_i hne
    constructor
    · intro h' _ hsocket hwilling
      have hconnected := h'.connected _ (List.mem_append_right _ (List.mem_singleton_self _)) hsocket hwilling
      exact Bool.false_ne_true hconnected
    · intro hnot
      refine ⟨hs.once, fun e he hsocket hwilling => ?_⟩
      rcases List.mem_append.1 he with he | he
      · exact hs.connected e he hsocket hwilling
      · obtain rfl := List.mem_singleton.1 he
        exact absurd hwilling (hnot hne hsocket)

/-- **A step keeps `Handshaken` exactly if it meets the condition.** -/
theorem handshaken_step_iff {server : RedisServer} (h : s.Quiet) (hs : Handshaken server s) (e : ConnectEvent) :
    Handshaken server (s.step server e) ↔ Proceeds server s e := by
  rw [Proceeds]
  cases hcrashed : s.crashed with
  | true  =>
    rw [step.eq_def, if_pos hcrashed]
    exact iff_of_true hs (.inl rfl)
  | false =>
    rw [or_iff_right Bool.false_ne_true]
    by_cases hreturned : e = .returned
    · subst hreturned
      rw [step.eq_def, if_neg (Bool.eq_false_iff.1 hcrashed), Meets]
      cases hcaller : s.caller with
      | none   => exact iff_of_true hs (by simp)
      | some c => exact (handshaken_returned_iff h hs c).trans (by simp)
    · exact (sets_step server h hs.once hcrashed hreturned).handshaken_iff hs

theorem quiet_step {server : RedisServer} (h : s.Quiet) (ho : s.Once) (e : ConnectEvent) : (s.step server e).Quiet := by
  cases hcrashed : s.crashed with
  | true  =>
    rw [step.eq_def, if_pos hcrashed]
    exact h
  | false =>
    by_cases hreturned : e = .returned
    · subst hreturned
      rw [step.eq_def, if_neg (Bool.eq_false_iff.1 hcrashed)]
      cases hcaller : s.caller with
      | none   => exact h
      | some c =>
        dsimp only
        rw [returned_eq h]
        split
        · exact h
        · exact quiet_congr h rfl h.connected h.outstanding
    · exact (sets_step server h ho hcrashed hreturned).quiet

/-! ## Runs -/

/-- **In every state of a run each promise was set at most once, and whoever could connect did, exactly if every step meets
the condition.** -/
theorem run_handshaken_iff (server : RedisServer) (events : List ConnectEvent) :
    (∀ n, Handshaken server ((events.take n).foldl (step server) {})) ↔ Along (step server) (Proceeds server) {} events := by
  have hquiet : Quiet {} := ⟨rfl, rfl, fun _ => rfl, fun _ _ hok => absurd hok List.not_mem_nil, fun _ => by simp⟩
  have hstart : Handshaken server {} := ⟨fun _ => Nat.zero_le 1, fun _ he => absurd he List.not_mem_nil⟩
  rw [← Run.always_iff_take]
  exact Run.always_iff_along (fun _ e h hs => quiet_step h hs.once e) (fun _ e h hs => handshaken_step_iff h hs e) events
    hquiet hstart

/-- The socket connects, and the server would reply to `PING`. -/
theorem not_run_handshaken : ¬∀ (server : RedisServer) (events : List ConnectEvent),
    Handshaken server (events.foldl (step server) {}) := by
  intro h
  have hend := (h ⟨.string "PONG", .nil, .string "OK"⟩
    [.connect {}, .runTask .started, .socket 0 true, .returned]).connected
  have hconnected := hend ⟨⟨[false], true, 0, false, true⟩, {}, false⟩ (List.mem_singleton_self _) rfl
    ⟨rfl, fun hlt => absurd hlt (by decide)⟩
  exact Bool.false_ne_true hconnected

end RedisConnection

end Gb
