import Mathlib.Tactic.SplitIfs
import GbServer.StreamThreads
/-!
# KcpConfinement — on which threads a KCP control block is used

`KcpTransport` (`kcp_transport.cpp`) has no lock: what it does to `_kcp`, `_in_buffer` and `_out_buffer` is meant for the
thread of the session's `_io_service`.  `MessageStream` calls it from wherever it is called itself: `Session::Send` from any
thread, `trigger_receive`, `trigger_send` and `close` from the maintenance thread.

A session is its stream (`StreamThreads.act`), and for each thread what it has left to do there, the innermost call first;
a thread does one thing at a time.  Datagrams and the update timer come on the own thread.  Whether a call of the transport
completes a read or a write before it returns, and with what, comes with the events.  `accesses` records who used the control
block or the buffers, and whether that was after the release.
-/
namespace Gb

open Run (Along Always)

/-- What uses the control block or the buffers. -/
inductive KcpOp
  | create
  | release
  | input
  | recv
  | update
  | asyncReadSome
  | asyncWriteSome
  | flushOutput
  deriving DecidableEq

structure KcpAccess (τ : Type) where
  op       : KcpOp
  thread   : τ
  released : Bool

/-- A session with the thread of its `_io_service`; `kcp` says whether there is a control block. -/
structure KcpThreads (τ : Type) where
  stream     : StreamThreads
  own        : τ
  kcp        : Bool := false
  released   : Bool := false
  todo       : τ → List StreamAction := fun _ => []
  /-- The thread is in a call of the transport that may complete something. -/
  completing : τ → Bool := fun _ => false
  accesses   : List (KcpAccess τ) := []

inductive KcpThreadsEvent (τ : Type)
  | call (thread : τ) (c : StreamCall)
  | inCallback (thread : τ) (c : StreamCall)
  | act (thread : τ) (input : StreamInput)
  | readCompletes (thread : τ) (outcome : ReadOutcome)
  | writeCompletes (thread : τ) (bytesTransferred : Nat)
  | accept
  | connect
  | connectTimeout (aborted : Bool)
  | datagram
  | update

namespace KcpThreads

variable {τ : Type} [DecidableEq τ] (s : KcpThreads τ)

def access (thread : τ) (ops : List KcpOp) : KcpThreads τ :=
  { s with accesses := s.accesses ++ ops.map fun op => ⟨op, thread, s.released⟩ }

/-- What an action uses.  `async_read_some`, and `async_write_some` up to `FlushOutput`, do not look at `_closed`.  A `close`
without a control block uses none: it sets `_closed` and cancels the timer. -/
def transportOps : StreamAction → List KcpOp
  | .transportClose => if s.stream.transportClosed = false ∧ s.kcp then [.release] else []
  | .doConnect      => if s.stream.transportClosed then [] else [.create]
  | .setup          => if s.stream.transportClosed then [] else [.create]
  | .asyncReadSome  => [.asyncReadSome]
  | .asyncWriteSome => .asyncWriteSome :: if s.stream.transportClosed = false ∧ s.kcp then [.flushOutput] else []
  | _               => []

/-- The control block that an action creates or releases. -/
def useKcp (input : StreamInput) : StreamAction → KcpThreads τ
  | .transportClose =>
    if s.stream.transportClosed = false ∧ s.kcp then { s with kcp := false, released := true } else s
  | .doConnect      => if s.stream.transportClosed = false ∧ input.ok then { s with kcp := true } else s
  | .setup          => if s.stream.transportClosed = false ∧ input.ok then { s with kcp := true } else s
  | _               => s

/-- The calls of the transport that may complete a read or a write on the spot. -/
def completes : StreamAction → Bool
  | .asyncReadSome  => true
  | .asyncWriteSome => true
  | _               => false

/-- What a thread has to do from now on. -/
def assign (thread : τ) (actions : List StreamAction) (completing : Bool) : KcpThreads τ :=
  { s with
    todo       := Function.update s.todo thread actions
    completing := Function.update s.completing thread completing }

/-- The handlers run on the own thread, when it is not doing anything else. -/
def idle : Bool := (s.todo s.own).isEmpty

/-- `HandleInput`, `OnReceive` and `OnUpdate`. -/
def handleTransport (ops : List KcpOp) : KcpThreads τ :=
  if s.idle ∧ s.stream.transportClosed = false ∧ s.kcp then (s.access s.own ops).assign s.own [] true else s

def complete (thread : τ) (action : StreamAction) : KcpThreads τ :=
  if s.completing thread then s.assign thread (action :: s.todo thread) false else s

/-- One action of a thread. -/
def run (thread : τ) (input : StreamInput) (a : StreamAction) (rest : List StreamAction) : KcpThreads τ :=
  { ((s.access thread (s.transportOps a)).useKcp input a).assign thread ((s.stream.act input a).2 ++ rest) (completes a) with
    stream := (s.stream.act input a).1 }

def step (s : KcpThreads τ) : KcpThreadsEvent τ → KcpThreads τ
  | .call thread c                =>
    if s.todo thread = [] then { s.assign thread (s.stream.call c).2 false with stream := (s.stream.call c).1 } else s
  | .inCallback thread c          =>
    match s.todo thread with
    | .callback :: rest =>
      { s.assign thread ((s.stream.call c).2 ++ .callback :: rest) false with stream := (s.stream.call c).1 }
    | _                 => s
  | .act thread input             =>
    match s.todo thread with
    | a :: rest => s.run thread input a rest
    | []        => s
  | .readCompletes thread outcome => s.complete thread (.onReadSome outcome)
  | .writeCompletes thread n      => s.complete thread (.onWriteSome false n)
  | .accept                       =>
    if s.idle ∧ s.stream.phase = .unused then { s.assign s.own [.setup] false with stream := { s.stream with phase := .done } }
    else s
  | .connect                      =>
    if s.idle ∧ s.stream.phase = .inTransport then
      { s.assign s.own [.doConnect] false with stream := { s.stream with phase := .done } }
    else s
  | .connectTimeout aborted       => if s.idle then s.assign s.own [.onConnectTimeout aborted] false else s
  | .datagram                     => s.handleTransport [.input, .recv]
  | .update                       => s.handleTransport [.update, .flushOutput]

/-- The control block and the buffers are used on the own thread only, where one use does not come into another, and not
after the release. -/
structure Confined (s : KcpThreads τ) : Prop where
  own      : ∀ a ∈ s.accesses, a.thread = s.own
  apart    : ∀ a ∈ s.accesses, ∀ b ∈ s.accesses, a.thread = b.thread
  released : ∀ a ∈ s.accesses, a.released = false

/-- What another thread must not come to, and what must not come on a closed transport. -/
def KeptAct (s : KcpThreads τ) (thread : τ) (input : StreamInput) : StreamAction → Prop
  | .close               => thread = s.own ∨ s.stream.status = .closed
  | .acquireReadQuota    => thread = s.own ∨ input.quota ≤ 0
  | .acquireWriteQuota _ => thread = s.own ∨ input.quota ≤ 0
  | .storeConnected      => s.stream.transportClosed = false
  | _                    => True

/-- The condition on a step: other threads close nothing that is not closed and get no quota, and the stream is not closed
while `on_connected` runs. -/
def Kept (s : KcpThreads τ) : KcpThreadsEvent τ → Prop
  | .act thread input => ∀ a ∈ (s.todo thread).head?, s.KeptAct thread input a
  | _                 => True

instance (thread : τ) (input : StreamInput) (a : StreamAction) : Decidable (s.KeptAct thread input a) := by
  cases a <;> first
    | exact .isTrue trivial
    | exact inferInstanceAs (Decidable (_ ∨ _))
    | exact inferInstanceAs (Decidable (_ = _))

instance (e : KcpThreadsEvent τ) : Decidable (s.Kept e) := by
  cases e <;> first
    | exact .isTrue trivial
    | exact inferInstanceAs (Decidable (∀ _ ∈ _, _))

/-- Only on an open transport. -/
def vital : StreamAction → Bool
  | .receiveTakeToken    => true
  | .acquireReadQuota    => true
  | .asyncReadSome       => true
  | .sendTakeToken       => true
  | .getFromPendingQueue => true
  | .acquireWriteQuota _ => true
  | .asyncWriteSome      => true
  | _                    => false

/-- What another thread comes to as long as the condition holds. -/
def foreign : StreamAction → Bool
  | .close                    => true
  | .callback                 => true
  | .asyncConnect             => true
  | .triggerReceive           => true
  | .triggerSend              => true
  | .receiveTestToken         => true
  | .receiveTestQuota         => true
  | .receiveReadPending       => true
  | .receiveTestPending _     => true
  | .receiveTestConnected     => true
  | .receiveTakeToken         => true
  | .acquireReadQuota         => true
  | .receiveReleaseToken      => true
  | .sendTestToken            => true
  | .sendTestQuota            => true
  | .sendTestConnected        => true
  | .sendTakeToken            => true
  | .getFromPendingQueue      => true
  | .acquireWriteQuota _      => true
  | .insertIntoPendingQueue _ => true
  | .sendReleaseToken         => true
  | .emptyReleaseToken        => true
  | .testPendingCount         => true
  | .asyncSendMessage _       => true
  | .putIntoPendingQueue _    => true
  | _                         => false

/-- The release of the control block. -/
def releases : StreamAction → Bool
  | .transportClose => true
  | _               => false

/-- What the own thread has left to do: the first action may be vital, on an open transport, or the release. -/
def Ready (stream : StreamThreads) : List StreamAction → Prop
  | []        => True
  | a :: rest => (vital a = true → stream.transportClosed = false) ∧
      (releases a = true → stream.status ≠ .connected) ∧ ∀ b ∈ rest, vital b = false ∧ releases b = false

/-! ## What an action does to a stream -/

section

variable {s : StreamThreads} {a : StreamAction}

/-- Only the first of the actions that take the place of one may be vital, behind a vital one or on a connected stream, or the
release, on a closed one. -/
structure Follows (s : StreamThreads) (a : StreamAction) (r : StreamThreads × List StreamAction) : Prop where
  vital           : ∀ b ∈ r.2.head?, vital b = true → vital a = true ∨ s.status = .connected
  releases        : ∀ b ∈ r.2.head?, releases b = true → r.1.status ≠ .connected
  rest            : ∀ b ∈ r.2.tail, KcpThreads.vital b = false ∧ KcpThreads.releases b = false
  transportClosed : r.1.transportClosed = s.transportClosed ∨ KcpThreads.releases a = true
  connected       : r.1.status = .connected → s.status = .connected ∨ a = .storeConnected

theorem follows_of_withoutQueues {r : StreamThreads × List StreamAction} (h : r.1.withoutQueues = s.withoutQueues)
    (hhead : ∀ b ∈ r.2.head?, (vital b = true → vital a = true ∨ s.status = .connected) ∧ releases b = false)
    (htail : r.2.tail = []) : Follows s a r where
  vital           := fun b hb => (hhead b hb).1
  releases        := fun b hb hr => absurd ((hhead b hb).2.symm.trans hr) Bool.false_ne_true
  rest            := fun b hb => by
    rw [htail] at hb
    cases hb
  transportClosed := .inl (congrArg StreamThreads.transportClosed h :)
  connected       := fun hr => .inl ((congrArg StreamThreads.status h :).symm.trans hr)

/-- Nothing vital and no release takes the place of the action, and the stream is as open as it was. -/
theorem follows_of_calm {r : StreamThreads × List StreamAction} (hclosed : r.1.transportClosed = s.transportClosed)
    (hstatus : r.1.status = .connected → s.status = .connected) (hcalm : r.2.all (fun b => !vital b && !releases b) = true) :
    Follows s a r := by
  have hall (b : StreamAction) (hb : b ∈ r.2) : vital b = false ∧ releases b = false := by
    simpa using List.all_eq_true.1 hcalm b hb
  have hhead (b : StreamAction) (hb : b ∈ r.2.head?) := hall b (List.mem_of_mem_head? hb)
  exact
    { vital           := fun b hb hv => absurd ((hhead b hb).1.symm.trans hv) Bool.false_ne_true
      releases        := fun b hb hr => absurd ((hhead b hb).2.symm.trans hr) Bool.false_ne_true
      rest            := fun b hb => hall b (List.mem_of_mem_tail hb)
      transportClosed := .inl hclosed
      connected       := fun hr => .inl (hstatus hr) }

/-- One action that is no release takes its place. -/
theorem follows_of_one {s' : StreamThreads} {b : StreamAction} (hclosed : s'.transportClosed = s.transportClosed)
    (hstatus : s'.status = .connected → s.status = .connected) (hb : releases b = false)
    (hvital : vital a = true ∨ s.status = .connected) : Follows s a (s', [b]) where
  vital           := fun _ _ _ => hvital
  releases        := fun c hc hr => by
    obtain rfl := Option.some.inj hc
    exact absurd (hb.symm.trans hr) Bool.false_ne_true
  rest            := fun c hc => absurd hc List.not_mem_nil
  transportClosed := .inl hclosed
  connected       := fun hr => .inl (hstatus hr)

theorem act_follows (input : StreamInput) : Follows s a (s.act input a) := by
  cases a
  case getFromPendingQueue =>
    have hqueues : (s.act input .getFromPendingQueue).1.withoutQueues = s.withoutQueues :=
      StreamThreads.getFromPendingQueue_withoutQueues
    refine follows_of_withoutQueues hqueues (fun b hb => ⟨fun _ => .inl rfl, ?_⟩) ?_
    · change b ∈ s.getFromPendingQueue.2.head? at hb
      rcases StreamThreads.getFromPendingQueue_cases (s := s) with ⟨_, heq⟩ | ⟨m, ms, _, heq⟩ <;> rw [heq] at hb <;>
        rw [← Option.some.inj hb] <;> rfl
    · change s.getFromPendingQueue.2.tail = []
      rcases StreamThreads.getFromPendingQueue_cases (s := s) with ⟨_, heq⟩ | ⟨m, ms, _, heq⟩ <;> rw [heq] <;> rfl
  case onWriteSome error n =>
    simp only [StreamThreads.act]
    split_ifs with hstatus herror
    · exact follows_of_calm rfl id rfl
    · exact follows_of_calm rfl id rfl
    · refine follows_of_withoutQueues StreamThreads.onWriteSome_withoutQueues (fun b hb => ⟨fun _ => .inr (not_not.1 hstatus), ?_⟩) ?_
      · rcases StreamThreads.onWriteSome_cases (s := s) (n := n) with ⟨_, _, _, _, heq⟩ | ⟨_, _, heq⟩ | ⟨_, heq⟩ <;>
          rw [heq] at hb <;> rw [← Option.some.inj hb] <;> rfl
      · rcases StreamThreads.onWriteSome_cases (s := s) (n := n) with ⟨_, _, _, _, heq⟩ | ⟨_, _, heq⟩ | ⟨_, heq⟩ <;>
          rw [heq] <;> rfl
  case close               =>
    simp only [StreamThreads.act]
    split_ifs with hclosed
    · exact follows_of_calm rfl id rfl
    · constructor <;> simp [vital, releases]
  case transportClose      => constructor <;> simp [StreamThreads.act, releases]
  case asyncConnect        => exact follows_of_calm rfl nofun rfl
  case storeConnected      => constructor <;> simp [StreamThreads.act, vital, releases]
  case onReadSome outcome  =>
    simp only [StreamThreads.act]
    split_ifs with hstatus
    · exact follows_of_calm rfl id rfl
    · cases outcome <;> exact follows_of_calm rfl id rfl
  all_goals
    simp only [StreamThreads.act]
    -- what is vital comes behind something vital, or behind a look at the status
    (try split_ifs) <;>
      first
      | exact follows_of_calm rfl id rfl
      | exact follows_of_one rfl id rfl (.inl rfl)
      | exact follows_of_one rfl id rfl (.inr ‹_›)

/-- What another thread does under the condition. -/
theorem act_foreign (input : StreamInput) (ha : foreign a = true) (hclose : a = .close → s.status = .closed)
    (hread : a = .acquireReadQuota → input.quota ≤ 0) (hwrite : ∀ m, a = .acquireWriteQuota m → input.quota ≤ 0) :
    ∀ b ∈ (s.act input a).2, foreign b = true := by
  refine List.all_eq_true.1 ?_
  cases a
  case getFromPendingQueue =>
    change s.getFromPendingQueue.2.all foreign = true
    rcases StreamThreads.getFromPendingQueue_cases (s := s) with ⟨_, heq⟩ | ⟨m, ms, _, heq⟩ <;> rw [heq] <;> rfl
  case onWriteSome error n => exact nomatch ha
  case onReadSome outcome  => exact nomatch ha
  all_goals
    simp only [StreamThreads.act]
    -- a branch that leads elsewhere is that of an own action, or against the condition
    (try split_ifs) <;>
      first
      | rfl
      | exact absurd ha Bool.false_ne_true
      | exact absurd (hclose rfl) ‹_›
      | exact absurd (hread rfl) ‹_›
      | exact absurd (hwrite _ rfl) ‹_›

end

/-! ## What a step keeps -/

/-- What holds as long as the condition does. -/
structure Inv (s : KcpThreads τ) : Prop where
  confined   : ∀ a ∈ s.accesses, a.thread = s.own ∧ a.released = false
  opened     : s.stream.transportClosed = true → s.stream.status ≠ .connected
  released   : s.released = true → s.stream.transportClosed = true
  ready      : Ready s.stream (s.todo s.own)
  completing : s.completing s.own = true → ∀ a ∈ s.todo s.own, vital a = false ∧ releases a = false
  others     : ∀ thread, thread ≠ s.own → s.completing thread = false ∧ ∀ a ∈ s.todo thread, foreign a = true

variable {s}

omit [DecidableEq τ] in
theorem Inv.toConfined (h : s.Inv) : s.Confined where
  own      := fun a ha => (h.confined a ha).1
  apart    := fun a ha b hb => (h.confined a ha).1.trans (h.confined b hb).1.symm
  released := fun a ha => (h.confined a ha).2

theorem ready_of_calm {stream : StreamThreads} {a : StreamAction} {rest : List StreamAction}
    (ha : vital a = false ∧ releases a = false) (hrest : ∀ b ∈ rest, vital b = false ∧ releases b = false) :
    Ready stream (a :: rest) :=
  ⟨fun h => absurd (ha.1.symm.trans h) Bool.false_ne_true, fun h => absurd (ha.2.symm.trans h) Bool.false_ne_true, hrest⟩

/-- What another stream says of what is left to do. -/
theorem Ready.congr {stream stream' : StreamThreads} {todo : List StreamAction} (h : Ready stream todo)
    (hclosed : stream'.transportClosed = stream.transportClosed) (hstatus : stream'.status = .connected → stream.status = .connected) :
    Ready stream' todo := by
  cases todo with
  | nil         => exact trivial
  | cons a rest => exact ⟨fun ha => hclosed.trans (h.1 ha), fun ha hs => h.2.1 ha (hstatus hs), h.2.2⟩

/-- A change of what one thread has to do. -/
theorem Inv.assign (h : s.Inv) {thread : τ} {actions : List StreamAction} {completing : Bool} {stream : StreamThreads}
    (hclosed : stream.transportClosed = s.stream.transportClosed) (hstatus : stream.status = .connected → s.stream.status = .connected)
    (hown : thread = s.own → Ready s.stream actions ∧ (completing = true → ∀ a ∈ actions, vital a = false ∧ releases a = false))
    (hother : thread ≠ s.own → completing = false ∧ ∀ a ∈ actions, foreign a = true) :
    Inv { s.assign thread actions completing with stream } := by
  have hopened : stream.transportClosed = true → stream.status ≠ .connected := fun hc hs =>
    h.opened (hclosed.symm.trans hc) (hstatus hs)
  refine ⟨h.confined, hopened, fun hr => hclosed.trans (h.released hr), ?_, ?_, fun t ht => ?_⟩
  · change Ready stream (Function.update s.todo thread actions s.own)
    by_cases hthread : s.own = thread
    · rw [← hthread, Function.update_self]
      exact (hown hthread.symm).1.congr hclosed hstatus
    · rw [Function.update_of_ne hthread]
      exact h.ready.congr hclosed hstatus
  · change Function.update s.completing thread completing s.own = true →
      ∀ a ∈ Function.update s.todo thread actions s.own, vital a = false ∧ releases a = false
    by_cases hthread : s.own = thread
    · rw [← hthread, Function.update_self, Function.update_self]
      exact (hown hthread.symm).2
    · rw [Function.update_of_ne hthread, Function.update_of_ne hthread]
      exact h.completing
  · change Function.update s.completing thread completing t = false ∧
      ∀ a ∈ Function.update s.todo thread actions t, foreign a = true
    by_cases hthread : t = thread
    · subst hthread
      rw [Function.update_self, Function.update_self]
      exact hother ht
    · rw [Function.update_of_ne hthread, Function.update_of_ne hthread]
      exact h.others t ht

/-- What a call begins with. -/
theorem call_calm (stream : StreamThreads) (c : StreamCall) : (stream.call c).1.transportClosed = stream.transportClosed ∧
    (stream.call c).1.status = stream.status ∧
    ∀ a ∈ (stream.call c).2, (vital a = false ∧ releases a = false) ∧ foreign a = true := by
  cases c with
  | asyncConnect =>
    unfold StreamThreads.call
    dsimp only
    split <;> simp [vital, releases, foreign]
  | _            => simp [StreamThreads.call, vital, releases, foreign]

theorem ready_append {stream : StreamThreads} {actions rest : List StreamAction}
    (hactions : ∀ a ∈ actions, vital a = false ∧ releases a = false) (hrest : ∀ a ∈ rest, vital a = false ∧ releases a = false) :
    Ready stream (actions ++ rest) := by
  have hall : ∀ a ∈ actions ++ rest, vital a = false ∧ releases a = false := List.forall_mem_append.2 ⟨hactions, hrest⟩
  cases hlist : actions ++ rest with
  | nil       => exact trivial
  | cons a as =>
    rw [hlist] at hall
    exact ready_of_calm (hall a List.mem_cons_self) fun b hb => hall b (List.mem_cons_of_mem _ hb)

theorem Inv.call (h : s.Inv) (thread : τ) (c : StreamCall) {rest : List StreamAction}
    (hown : thread = s.own → ∀ a ∈ rest, vital a = false ∧ releases a = false)
    (hother : thread ≠ s.own → ∀ a ∈ rest, foreign a = true) :
    Inv { s.assign thread ((s.stream.call c).2 ++ rest) false with stream := (s.stream.call c).1 } := by
  obtain ⟨hclosed, hstatus, hcalm⟩ := call_calm s.stream c
  refine h.assign hclosed (fun hs => hstatus.symm.trans hs) (fun ht => ⟨?_, fun hc => nomatch hc⟩) fun ht => ⟨rfl, ?_⟩
  · exact ready_append (fun a ha => (hcalm a ha).1) (hown ht)
  · exact List.forall_mem_append.2 ⟨fun a ha => (hcalm a ha).2, hother ht⟩

omit [DecidableEq τ] in
/-- What is used is used by an action that is vital, or that asks whether the transport is closed. -/
theorem Inv.transportOps_released (h : s.Inv) {a : StreamAction}
    (ha : vital a = true → s.stream.transportClosed = false) : s.transportOps a ≠ [] → s.released = false := by
  have hopen (hc : s.stream.transportClosed = false) : s.released = false :=
    Bool.eq_false_of_not_eq_true fun hr => Bool.false_ne_true (hc.symm.trans (h.released hr))
  have hasks {ops : List KcpOp} (hne : (if s.stream.transportClosed = true then [] else ops) ≠ []) : s.released = false := by
    split at hne
    · exact absurd rfl hne
    · rename_i hc
      exact hopen (Bool.eq_false_of_not_eq_true hc)
  intro hne
  cases a with
  | transportClose =>
    change (if s.stream.transportClosed = false ∧ s.kcp = true then [KcpOp.release] else []) ≠ [] at hne
    split at hne
    · rename_i hc
      exact hopen hc.1
    · exact absurd rfl hne
  | doConnect      => exact hasks hne
  | setup          => exact hasks hne
  | asyncReadSome  => exact hopen (ha rfl)
  | asyncWriteSome => exact hopen (ha rfl)
  | _              => exact absurd rfl hne

omit [DecidableEq τ] in
/-- A release leaves the transport closed. -/
theorem useKcp_released (input : StreamInput) (a : StreamAction) :
    (s.useKcp input a).released = true → s.released = true ∨ releases a = true := by
  cases a with
  | transportClose => exact fun _ => .inr rfl
  | doConnect      =>
    unfold useKcp
    dsimp only
    split <;> exact .inl
  | setup          =>
    unfold useKcp
    dsimp only
    split <;> exact .inl
  | _              => exact .inl

omit [DecidableEq τ] in
theorem useKcp_same (input : StreamInput) (a : StreamAction) : (s.useKcp input a).stream = s.stream ∧
    (s.useKcp input a).own = s.own ∧ (s.useKcp input a).todo = s.todo ∧ (s.useKcp input a).completing = s.completing ∧
      (s.useKcp input a).accesses = s.accesses := by
  unfold useKcp
  split
  · split <;> exact ⟨rfl, rfl, rfl, rfl, rfl⟩
  · split <;> exact ⟨rfl, rfl, rfl, rfl, rfl⟩
  · split <;> exact ⟨rfl, rfl, rfl, rfl, rfl⟩
  · exact ⟨rfl, rfl, rfl, rfl, rfl⟩

theorem run_same (thread : τ) (input : StreamInput) (a : StreamAction) (rest : List StreamAction) :
    (s.run thread input a rest).own = s.own ∧
      (s.run thread input a rest).todo = Function.update s.todo thread ((s.stream.act input a).2 ++ rest) ∧
      (s.run thread input a rest).completing = Function.update s.completing thread (completes a) ∧
      (s.run thread input a rest).accesses =
        s.accesses ++ (s.transportOps a).map fun op => ⟨op, thread, s.released⟩ := by
  obtain ⟨-, hown, htodo, hcompleting, haccesses⟩ := useKcp_same (s := s.access thread (s.transportOps a)) input a
  refine ⟨hown, ?_, ?_, haccesses⟩
  · change Function.update ((s.access thread (s.transportOps a)).useKcp input a).todo thread _ = _
    rw [htodo]
    rfl
  · change Function.update ((s.access thread (s.transportOps a)).useKcp input a).completing thread _ = _
    rw [hcompleting]
    rfl

theorem act_releases (stream : StreamThreads) (input : StreamInput) {a : StreamAction} (ha : releases a = true) :
    (stream.act input a).1.transportClosed = true ∧ (stream.act input a).2 = [] := by
  cases a with
  | transportClose => exact ⟨rfl, rfl⟩
  | _              => exact nomatch ha

theorem act_completes (stream : StreamThreads) (input : StreamInput) {a : StreamAction} (ha : completes a = true) :
    (stream.act input a).2 = [] := by
  cases a with
  | asyncReadSome  => rfl
  | asyncWriteSome => rfl
  | _              => exact nomatch ha

/-- **An action of the own thread.** -/
theorem Inv.run_own (h : s.Inv) {input : StreamInput} {a : StreamAction} {rest : List StreamAction}
    (htodo : s.todo s.own = a :: rest) (hstore : a = .storeConnected → s.stream.transportClosed = false) :
    (s.run s.own input a rest).Inv := by
  obtain ⟨hvital, hreleases, hrest⟩ : Ready s.stream (a :: rest) := htodo ▸ h.ready
  have hfollows := act_follows (s := s.stream) (a := a) input
  obtain ⟨hown, htodo', hcompleting, haccesses⟩ := run_same (s := s) s.own input a rest
  have hconnected (hstatus : (s.stream.act input a).1.status = .connected) : releases a = false ∧ s.stream.transportClosed = false := by
    rcases hfollows.connected hstatus with hbefore | rfl
    · constructor
      · exact Bool.eq_false_of_not_eq_true fun hr => hreleases hr hbefore
      · exact Bool.eq_false_of_not_eq_true fun hc => h.opened hc hbefore
    · exact ⟨rfl, hstore rfl⟩
  have hopened : (s.stream.act input a).1.transportClosed = true → (s.stream.act input a).1.status ≠ .connected := by
    intro hclosed hstatus
    obtain ⟨hkeeps, hopen⟩ := hconnected hstatus
    rcases hfollows.transportClosed with heq | hr
    · exact Bool.false_ne_true (hopen.symm.trans (heq.symm.trans hclosed))
    · exact Bool.false_ne_true (hkeeps.symm.trans hr)
  have hready : Ready (s.stream.act input a).1 ((s.stream.act input a).2 ++ rest) := by
    cases hnext : (s.stream.act input a).2 with
    | nil       =>
      exact ready_append (List.forall_mem_nil _) hrest
    | cons b bs =>
      have hrest' := hfollows.rest
      have hhead := hfollows.vital b
      have hrel := hfollows.releases b
      rw [hnext] at hrest' hhead hrel
      refine ⟨fun hb => ?_, fun hb => hrel rfl hb, List.forall_mem_append.2 ⟨hrest', hrest⟩⟩
      have hopen : s.stream.transportClosed = false := by
        rcases hhead rfl hb with ha | hstatus
        · exact hvital ha
        · exact Bool.eq_false_of_not_eq_true fun hc => h.opened hc hstatus
      rcases hfollows.transportClosed with heq | hr
      · exact heq.trans hopen
      · rw [(act_releases s.stream input hr).2] at hnext
        cases hnext
  have hclosed (hc : s.stream.transportClosed = true) : (s.stream.act input a).1.transportClosed = true := by
    rcases hfollows.transportClosed with heq | hr
    · exact heq.trans hc
    · exact (act_releases s.stream input hr).1
  constructor
  · intro x hx
    rw [haccesses] at hx
    rw [hown]
    rcases List.mem_append.1 hx with hx | hx
    · exact h.confined x hx
    · obtain ⟨op, hop, rfl⟩ := List.mem_map.1 hx
      exact ⟨rfl, h.transportOps_released hvital (List.ne_nil_of_mem hop)⟩
  · exact hopened
  · intro hr
    rcases useKcp_released input a hr with hr | hr
    · exact hclosed (h.released hr)
    · exact (act_releases s.stream input hr).1
  · rw [hown, htodo', Function.update_self]
    exact hready
  · rw [hown, htodo', hcompleting, Function.update_self, Function.update_self]
    intro hc
    rw [act_completes s.stream input hc]
    exact hrest
  · rw [hown, htodo', hcompleting]
    intro t ht
    rw [Function.update_of_ne ht, Function.update_of_ne ht]
    exact h.others t ht

omit [DecidableEq τ] in
theorem foreign_idle {a : StreamAction} (ha : foreign a = true) (stream : KcpThreads τ) (input : StreamInput) :
    stream.transportOps a = [] ∧ stream.useKcp input a = stream ∧ completes a = false ∧ releases a = false ∧
      a ≠ .storeConnected := by
  cases a with
  | transportClose => exact nomatch ha
  | doConnect      => exact nomatch ha
  | setup          => exact nomatch ha
  | asyncReadSome  => exact nomatch ha
  | asyncWriteSome => exact nomatch ha
  | storeConnected => exact nomatch ha
  | _              => exact ⟨rfl, rfl, rfl, rfl, fun h => nomatch h⟩

/-- **An action of another thread.** -/
theorem Inv.run_other (h : s.Inv) {thread : τ} (hthread : thread ≠ s.own) {input : StreamInput} {a : StreamAction}
    {rest : List StreamAction} (htodo : s.todo thread = a :: rest) (hclose : a = .close → s.stream.status = .closed)
    (hread : a = .acquireReadQuota → input.quota ≤ 0) (hwrite : ∀ m, a = .acquireWriteQuota m → input.quota ≤ 0) :
    (s.run thread input a rest).Inv := by
  have hforeign := (h.others thread hthread).2
  rw [htodo] at hforeign
  have ha := hforeign a List.mem_cons_self
  obtain ⟨hops, huse, hcompletes, hreleases, hstore⟩ := foreign_idle ha (s.access thread (s.transportOps a)) input
  have hfollows := act_follows (s := s.stream) (a := a) input
  have hrun : s.run thread input a rest =
      { s.assign thread ((s.stream.act input a).2 ++ rest) false with stream := (s.stream.act input a).1 } := by
    have hnone : s.transportOps a = [] := hops
    have haccess : s.access thread [] = s := by
      unfold access
      rw [List.map_nil, List.append_nil]
    unfold KcpThreads.run
    rw [huse, hcompletes, hnone, haccess]
  rw [hrun]
  refine h.assign ?_ (fun hs => (hfollows.connected hs).resolve_right hstore) (fun ht => absurd ht hthread) fun _ => ⟨rfl, ?_⟩
  · exact hfollows.transportClosed.resolve_right fun hr => Bool.false_ne_true (hreleases.symm.trans hr)
  · exact List.forall_mem_append.2 ⟨act_foreign input ha hclose hread hwrite, fun b hb => hforeign b (List.mem_cons_of_mem _ hb)⟩

theorem Inv.act (h : s.Inv) {thread : τ} {input : StreamInput} (hkept : s.Kept (.act thread input)) :
    (s.step (.act thread input)).Inv := by
  dsimp only [KcpThreads.step]
  cases htodo : s.todo thread with
  | nil         => exact h
  | cons a rest =>
    have hact : s.KeptAct thread input a := by
      refine hkept a ?_
      rw [htodo]
      rfl
    by_cases hthread : thread = s.own
    · subst hthread
      refine h.run_own htodo ?_
      rintro rfl
      exact hact
    · refine h.run_other hthread htodo ?_ ?_ ?_
      · rintro rfl
        exact hact.resolve_left hthread
      · rintro rfl
        exact hact.resolve_left hthread
      · rintro m rfl
        exact hact.resolve_left hthread

/-- What completes is in a call of the own thread. -/
theorem Inv.complete (h : s.Inv) (thread : τ) {action : StreamAction} (hcalm : vital action = false ∧ releases action = false) :
    (s.complete thread action).Inv := by
  unfold KcpThreads.complete
  split
  · rename_i hcompleting
    have hown : thread = s.own := by
      by_contra hne
      exact Bool.false_ne_true ((h.others thread hne).1.symm.trans hcompleting)
    subst hown
    refine h.assign rfl id (fun _ => ⟨ready_of_calm hcalm (h.completing hcompleting), fun hc => nomatch hc⟩) fun hne => absurd rfl hne
  · exact h

theorem Inv.handleTransport (h : s.Inv) (ops : List KcpOp) : (s.handleTransport ops).Inv := by
  unfold KcpThreads.handleTransport
  split
  · rename_i hidle
    have hreleased : s.released = false := Bool.eq_false_of_not_eq_true fun hr =>
      Bool.false_ne_true (hidle.2.1.symm.trans (h.released hr))
    have haccess : (s.access s.own ops).Inv := by
      refine ⟨fun a ha => ?_, h.opened, h.released, h.ready, h.completing, h.others⟩
      rcases List.mem_append.1 ha with ha | ha
      · exact h.confined a ha
      · obtain ⟨op, -, rfl⟩ := List.mem_map.1 ha
        exact ⟨rfl, hreleased⟩
    exact haccess.assign rfl id (fun _ => ⟨trivial, fun _ => nofun⟩) fun hne => absurd rfl hne
  · exact h

/-- A handler of the own thread. -/
theorem Inv.handle (h : s.Inv) {action : StreamAction} (hcalm : vital action = false ∧ releases action = false)
    {stream : StreamThreads} (hclosed : stream.transportClosed = s.stream.transportClosed) (hstatus : stream.status = s.stream.status) :
    Inv { s.assign s.own [action] false with stream } :=
  h.assign hclosed (fun hs => hstatus.symm.trans hs) (fun _ => ⟨ready_of_calm hcalm nofun, fun hc => nomatch hc⟩)
    fun hne => absurd rfl hne

theorem Inv.step (h : s.Inv) (e : KcpThreadsEvent τ) (hkept : s.Kept e) : (s.step e).Inv := by
  cases e with
  | call thread c                =>
    dsimp only [KcpThreads.step]
    split
    · rw [← List.append_nil (s.stream.call c).2]
      exact h.call thread c (fun _ => nofun) fun _ => nofun
    · exact h
  | inCallback thread c          =>
    dsimp only [KcpThreads.step]
    split
    · rename_i rest htodo
      refine h.call thread c (fun hthread a ha => ?_) fun hthread => ?_
      · subst hthread
        obtain ⟨-, -, hrest⟩ : Ready s.stream (.callback :: rest) := htodo ▸ h.ready
        rcases List.mem_cons.1 ha with rfl | ha
        · exact ⟨rfl, rfl⟩
        · exact hrest a ha
      · exact htodo ▸ (h.others thread hthread).2
    · exact h
  | act thread input             => exact h.act hkept
  | readCompletes thread outcome => exact h.complete thread ⟨rfl, rfl⟩
  | writeCompletes thread n      => exact h.complete thread ⟨rfl, rfl⟩
  | accept                       =>
    dsimp only [KcpThreads.step]
    split
    · exact h.handle ⟨rfl, rfl⟩ rfl rfl
    · exact h
  | connect                      =>
    dsimp only [KcpThreads.step]
    split
    · exact h.handle ⟨rfl, rfl⟩ rfl rfl
    · exact h
  | connectTimeout aborted       =>
    dsimp only [KcpThreads.step]
    split
    · exact h.handle ⟨rfl, rfl⟩ rfl rfl
    · exact h
  | datagram                     => exact h.handleTransport _
  | update                       => exact h.handleTransport _

/-- A session that was just made. -/
def create (own : τ) (netType : NetType) (maxPendingBufferSize : Int) : KcpThreads τ where
  stream := .init netType .kcp maxPendingBufferSize
  own    := own

omit [DecidableEq τ] in
theorem inv_create (own : τ) (netType : NetType) (maxPendingBufferSize : Int) : (create own netType maxPendingBufferSize).Inv where
  confined   := nofun
  opened     := nofun
  released   := nofun
  ready      := trivial
  completing := nofun
  others     := fun _ _ => ⟨rfl, nofun⟩

end KcpThreads

/-! ## Many sessions -/

/-- Sessions are made by a listener or a client, each for a thread of the pool. -/
inductive KcpSessionsEvent (τ : Type)
  | create (own : τ) (netType : NetType) (maxPendingBufferSize : Int)
  | session (i : Nat) (e : KcpThreadsEvent τ)

/-- The sessions, which have nothing of their transports in common. -/
structure KcpSessions (τ : Type) where
  sessions : List (KcpThreads τ) := []

namespace KcpSessions

variable {τ : Type} [DecidableEq τ]

def step (s : KcpSessions τ) : KcpSessionsEvent τ → KcpSessions τ
  | .create own netType maxPendingBufferSize => ⟨s.sessions ++ [.create own netType maxPendingBufferSize]⟩
  | .session i e                             => ⟨s.sessions.modify i fun session => session.step e⟩

def Confined (s : KcpSessions τ) : Prop := ∀ session ∈ s.sessions, session.Confined

def Kept (s : KcpSessions τ) : KcpSessionsEvent τ → Prop
  | .create _ _ _ => True
  | .session i e  => ∀ session ∈ s.sessions[i]?, session.Kept e

instance (s : KcpSessions τ) : (e : KcpSessionsEvent τ) → Decidable (s.Kept e)
  | .create _ _ _ => .isTrue trivial
  | .session _ _  => inferInstanceAs (Decidable (∀ _ ∈ _, _))

/-- **Every session's control block and buffers are used on the session's own thread only and not after the release, in every
state of a run in which other threads close no open session and get no quota, and no session is closed while
`on_connected` runs.** -/
theorem run_confined (es : List (KcpSessionsEvent τ)) (hkept : Along step Kept {} es) : Always step Confined {} es := by
  have hstep (s : KcpSessions τ) (e : KcpSessionsEvent τ) (h : ∀ session ∈ s.sessions, session.Inv) (hk : s.Kept e) :
      ∀ session ∈ (s.step e).sessions, session.Inv := by
    cases e with
    | create own netType limit =>
      exact List.forall_mem_append.2 ⟨h, List.forall_mem_singleton.2 (KcpThreads.inv_create own netType limit)⟩
    | session i e              =>
      exact Tally.forall_modify h i fun session hi => (h session (List.mem_of_getElem? hi)).step e (hk session hi)
  exact (Run.always_inv hstep es (fun _ hs => absurd hs List.not_mem_nil) hkept).mono
    fun s h session hs => (h session hs).toConfined

/-- A message of one byte. -/
def oneByte : SendMessage := { blocks := [[7]], nonempty := by decide, small := by decide, totalBlockSize := 1 }

/-- A session of thread 0 that is accepted and connected, then a call on a thread. -/
def connectedThen (calls : List (KcpThreadsEvent Nat)) : List (KcpSessionsEvent Nat) :=
  .create 0 .server 100 ::
    (KcpThreadsEvent.accept :: List.replicate 24 (KcpThreadsEvent.act 0 {}) ++ calls).map (.session 0)

/-- Its own thread sends. -/
theorem run_confined_own :
    Always step Confined {} (connectedThen (.call 0 (.asyncSendMessage oneByte) :: List.replicate 8 (.act 0 {}))) := by
  exact run_confined _ (by decide)

/-- Another thread sends. -/
theorem not_run_confined : ¬∀ es : List (KcpSessionsEvent Nat), Always step Confined {} es := by
  intro h
  have hconfined := Run.always_iff_take.1
    (h (connectedThen (.call 1 (.asyncSendMessage oneByte) :: List.replicate 9 (.act 1 {})))) 36
  have hown := (hconfined _ List.mem_cons_self).own
  exact absurd hown (by decide)

end KcpSessions

end Gb
