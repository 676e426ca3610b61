import Mathlib.Tactic.SplitIfs
import GbServer.StreamThreads
/-!
# StreamStatus — a closed stream stays closed

`close` swaps the status and lets `on_closed` run once.  `async_connect` and `set_socket_connected` store theirs over
whatever is there, and a read or a write is started by a thread that tested the status some steps before: where the swap
comes in between, the stream comes back to life, or reads and writes when it is closed.

`run_closed_stays` is about runs in which no swap comes in between.
-/
namespace Gb

open Run (Along)
open Threads Tally

/-- The thread stores a status or starts a read or a write, now or later, and does not test the status before. -/
def StreamAction.critical : StreamAction → Bool
  | asyncConnect        => true
  | setConnectedOptions => true
  | onConnected         => true
  | storeConnected      => true
  | receiveTakeToken    => true
  | acquireReadQuota    => true
  | asyncReadSome       => true
  | sendTakeToken       => true
  | getFromPendingQueue => true
  | acquireWriteQuota _ => true
  | asyncWriteSome      => true
  | _                   => false

/-- The call of `on_closed` that a swap leaves to do. -/
def StreamAction.closing : StreamAction → Nat
  | onClosed => 1
  | _        => 0

/-- A KCP transport that connects asks whether it was closed itself. -/
def StreamAction.kcpConnects : StreamAction → Bool
  | doConnect => true
  | setup     => true
  | _         => false

namespace StreamThreads

variable {s : StreamThreads} {a : StreamAction}

/-- No thread is between a test of the status and what it does on it. -/
def Uncritical (s : StreamThreads) : Prop := ∀ a, Has s.ops a → a.critical = false

/-- The condition on a step: a swap that closes the stream finds no thread between a test of the status and what it
does on it, and a stream that is closed is not connected any more. -/
def Undisturbed (s : StreamThreads) : StreamEvent → Prop
  | .step k _                   =>
    match s.ops[k]? with
    | some (a :: _) => (a = .close → s.status ≠ .closed → s.Uncritical) ∧
        (a.kcpConnects = true → s.status = .closed → s.transportClosed = true)
    | _             => True
  | .call .asyncConnect         => s.phase = .unused → s.status ≠ .closed
  | .inCallback _ .asyncConnect => s.phase = .unused → s.status ≠ .closed
  | _                           => True

def isClosed (s : StreamThreads) : Nat := if s.status = .closed then 1 else 0

/-- What holds of a stream between the steps. -/
structure Final (s : StreamThreads) : Prop where
  uncritical : s.status = .closed → s.Uncritical
  once       : s.closedCalls + weight StreamAction.closing s.ops = s.isClosed
  punctual   : s.lateStarts = 0

/-! ## One step -/

/-- On a closed stream, a thread that is not critical stays so and leaves the status alone. -/
theorem act_closed (input : StreamInput) (hclosed : s.status = .closed) (ha : a.critical = false)
    (hkcp : a.kcpConnects = true → s.transportClosed = true) :
    (s.act input a).1.status = .closed ∧ (s.act input a).1.lateStarts = s.lateStarts ∧
    (s.act input a).1.closedCalls + tally StreamAction.closing (s.act input a).2 = s.closedCalls + a.closing ∧
    ∀ b ∈ (s.act input a).2, b.critical = false := by
  have hnone {l : List StreamAction} (h : l.all (fun b => !b.critical) = true) : ∀ b ∈ l, b.critical = false := fun b hb => by
    simpa using List.all_eq_true.1 h b hb
  have hnot : s.status ≠ .connected := fun hconnected => nomatch hclosed.symm.trans hconnected
  cases a
  case onReadSome outcome =>
    have hact : s.act input (.onReadSome outcome) = (s, []) := by simp [act, hnot]
    rw [hact]
    exact ⟨hclosed, rfl, rfl, hnone rfl⟩
  case onWriteSome error n =>
    have hact : s.act input (.onWriteSome error n) = (s, []) := if_pos hnot
    rw [hact]
    exact ⟨hclosed, rfl, rfl, hnone rfl⟩
  all_goals
    dsimp only [act]
    (try split_ifs) <;>
      first
      | exact absurd ha.symm Bool.false_ne_true
      | exact ⟨hclosed, rfl, rfl, hnone rfl⟩
      | exact absurd hclosed ‹_›
      | simp_all [StreamAction.critical, StreamAction.kcpConnects]

theorem getFromPendingQueue_closing : tally StreamAction.closing s.getFromPendingQueue.2 = 0 := by
  rcases getFromPendingQueue_cases (s := s) with ⟨_, heq⟩ | ⟨m, ms, _, heq⟩
  · rw [heq]
    rfl
  · rw [heq]
    rfl

theorem onWriteSome_closing {n : Nat} : tally StreamAction.closing (s.onWriteSome n).2 = 0 := by
  rcases onWriteSome_cases (s := s) (n := n) with ⟨b, bs, _, _, heq⟩ | ⟨_, _, heq⟩ | ⟨_, heq⟩
  · rw [heq]
    rfl
  · rw [heq]
    rfl
  · rw [heq]
    rfl

/-- What the queues do not touch. -/
theorem status_of_withoutQueues {s' : StreamThreads} (h : s'.withoutQueues = s.withoutQueues) :
    s'.status = s.status ∧ s'.lateStarts = s.lateStarts ∧ s'.closedCalls = s.closedCalls := by
  have hstatus : s'.withoutQueues.status = s.withoutQueues.status := by rw [h]
  have hlate : s'.withoutQueues.lateStarts = s.withoutQueues.lateStarts := by rw [h]
  have hcalls : s'.withoutQueues.closedCalls = s.withoutQueues.closedCalls := by rw [h]
  exact ⟨hstatus, hlate, hcalls⟩

/-- On a stream that is not closed, only `close` closes it. -/
theorem act_open (input : StreamInput) (hopen : s.status ≠ .closed) (hother : a ≠ .close) :
    (s.act input a).1.status ≠ .closed ∧ (s.act input a).1.lateStarts = s.lateStarts ∧
    (s.act input a).1.closedCalls + tally StreamAction.closing (s.act input a).2 = s.closedCalls + a.closing := by
  have hlate : s.lateStarts + s.late = s.lateStarts := by simp [late, hopen]
  -- what only touches the queues
  have hqueues {r : StreamThreads × List StreamAction} (h : r.1.withoutQueues = s.withoutQueues)
      (hclosing : tally StreamAction.closing r.2 = 0) : r.1.status ≠ .closed ∧ r.1.lateStarts = s.lateStarts ∧
      r.1.closedCalls + tally StreamAction.closing r.2 = s.closedCalls := by
    obtain ⟨hstatus, hlate, hcalls⟩ := status_of_withoutQueues h
    exact ⟨hstatus ▸ hopen, hlate, by rw [hcalls, hclosing, Nat.add_zero]⟩
  cases a
  case close               => exact absurd rfl hother
  case getFromPendingQueue => exact hqueues getFromPendingQueue_withoutQueues getFromPendingQueue_closing
  case onWriteSome error n =>
    dsimp only [act]
    split_ifs
    · exact ⟨hopen, rfl, rfl⟩
    · exact ⟨hopen, rfl, rfl⟩
    · exact hqueues onWriteSome_withoutQueues onWriteSome_closing
  case onReadSome outcome  =>
    dsimp only [act]
    split_ifs
    · exact ⟨hopen, rfl, rfl⟩
    · cases outcome <;> exact ⟨hopen, rfl, rfl⟩
  case onClosed            => exact ⟨hopen, rfl, rfl⟩
  case asyncReadSome       => exact ⟨hopen, hlate, rfl⟩
  case asyncWriteSome      => exact ⟨hopen, hlate, rfl⟩
  case asyncConnect        => exact ⟨nofun, rfl, rfl⟩
  case storeConnected      => exact ⟨nofun, rfl, rfl⟩
  all_goals
    dsimp only [act]
    (try split_ifs) <;> exact ⟨hopen, rfl, rfl⟩

/-! ## Runs -/

/-- What begins closes nothing, and on a closed stream it is not critical. -/
structure BeginsUncritical (s s' : StreamThreads) (op : List StreamAction) : Prop where
  status      : s'.status = s.status
  closedCalls : s'.closedCalls = s.closedCalls
  lateStarts  : s'.lateStarts = s.lateStarts
  closing     : tally StreamAction.closing op = 0
  uncritical  : s.status = .closed → ∀ a ∈ op, a.critical = false

theorem call_uncritical (c : StreamCall) (hcond : c = .asyncConnect → s.phase = .unused → s.status ≠ .closed) :
    s.BeginsUncritical (s.call c).1 (s.call c).2 := by
  cases c with
  | asyncConnect =>
    by_cases hphase : s.phase = .unused
    · have hopen := hcond rfl hphase
      constructor <;> simp [call, hphase, StreamAction.closing, hopen]
    · constructor <;> simp [call, hphase]
  | _            => constructor <;> simp [call, StreamAction.closing, StreamAction.critical]

theorem begins_uncritical {e : StreamEvent} {s' : StreamThreads} {op : List StreamAction} (hbegins : s.Begins e s' op)
    (hcond : s.Undisturbed e) : s.BeginsUncritical s' op := by
  cases hbegins with
  | call c                                   =>
    apply call_uncritical
    rintro rfl
    exact hcond
  | inCallback k c                           =>
    apply call_uncritical
    rintro rfl
    exact hcond
  | accept hphase                            =>
    unfold acceptActions
    split <;> constructor <;> simp [StreamAction.closing, StreamAction.critical]
  | connectCompletes error hphase            =>
    unfold connectActions
    split <;> constructor <;> simp [StreamAction.closing, StreamAction.critical]
  | connectTimeout aborted                   => constructor <;> simp [StreamAction.closing, StreamAction.critical]
  | readCompletes outcome hreads             => constructor <;> simp [StreamAction.closing, StreamAction.critical]
  | writeCompletes i error n chunk hchunk hn => constructor <;> simp [StreamAction.closing, StreamAction.critical]

/-- A thread begins. -/
theorem Final.begins (h : s.Final) {s' : StreamThreads} {op : List StreamAction} (hquiet : s.BeginsUncritical s' op)
    {ops : List (List StreamAction)} (hops : ∀ b, Has ops b ↔ Has (op :: s.ops) b)
    (hweight : ∀ w, weight w ops = weight w (op :: s.ops)) : Final { s' with ops := ops } where
  uncritical := by
    intro hclosed b hb
    have hclosed : s.status = .closed := hquiet.status.symm.trans hclosed
    rcases has_cons.1 ((hops b).1 hb) with hb | hb
    · exact hquiet.uncritical hclosed b hb
    · exact h.uncritical hclosed b hb
  once       := by
    have hold := h.once
    simp only [isClosed, hquiet.status, hquiet.closedCalls, hweight, weight_cons, hquiet.closing] at hold ⊢
    omega
  punctual   := hquiet.lateStarts.trans h.punctual

/-- A thread goes on with its first action: on a closed stream none is critical. -/
theorem Final.advance (h : s.Final) {k : Nat} {input : StreamInput} {rest : List StreamAction} (hk : s.ops[k]? = some (a :: rest))
    (hcond : s.Undisturbed (.step k input)) :
    Final { (s.act input a).1 with ops := advance s.ops k (s.act input a).2 } ∧
    (s.status = .closed → (s.act input a).1.status = .closed) := by
  have hweight := weight_advance StreamAction.closing (s.act input a).2 hk
  have hhas := has_of_getElem? hk
  simp only [Undisturbed, hk] at hcond
  obtain ⟨hswap, hkcp⟩ := hcond
  have honce := h.once
  by_cases hclosed : s.status = .closed
  · obtain ⟨hstatus, hlate, hcalls, hpushed⟩ :=
      act_closed input hclosed (h.uncritical hclosed a hhas) fun hk => hkcp hk hclosed
    refine ⟨⟨?_, ?_, hlate.trans h.punctual⟩, fun _ => hstatus⟩
    · intro _ b hb
      rcases (has_advance hk).1 hb with hb | hb
      · exact hpushed b hb
      · exact h.uncritical hclosed b hb.of_advance
    · simp only [isClosed, hclosed, hstatus] at honce ⊢
      omega
  · by_cases hclose : a = .close
    · -- the swap: nobody is critical, and the one call of `on_closed` is to come
      subst hclose
      simp only [act, if_neg hclosed] at hweight ⊢
      have huncritical := hswap rfl hclosed
      refine ⟨⟨?_, ?_, h.punctual⟩, fun hc => absurd hc hclosed⟩
      · intro _ b hb
        rcases (has_advance hk).1 hb with hb | hb
        · simp at hb
          rcases hb with rfl | rfl <;> rfl
        · exact huncritical b hb.of_advance
      · simp only [isClosed, if_neg hclosed] at honce
        simp [isClosed, StreamAction.closing] at hweight ⊢
        omega
    · obtain ⟨hstatus, hlate, hcalls⟩ := act_open input hclosed hclose
      refine ⟨⟨fun hc => absurd hc hstatus, ?_, hlate.trans h.punctual⟩, fun hc => absurd hc hclosed⟩
      simp only [isClosed, if_neg hclosed] at honce
      simp only [isClosed, if_neg hstatus]
      omega

theorem Final.step (h : s.Final) (e : StreamEvent) (hcond : s.Undisturbed e) :
    (s.step e).Final ∧ (s.status = .closed → (s.step e).status = .closed) := by
  rcases s.step_cases e with heq | ⟨s', op, ops, hbegins, hops, hweight, heq⟩ | ⟨k, input, a, rest, rfl, hk, heq⟩
  · rw [heq]
    exact ⟨h, id⟩
  · rw [heq]
    have hquiet := begins_uncritical hbegins hcond
    exact ⟨h.begins hquiet hops hweight, fun hclosed => hquiet.status.trans hclosed⟩
  · rw [heq]
    exact h.advance hk hcond

/-- `s` comes behind `was` in a run. -/
def Later (was s : StreamThreads) : Prop := s.Final ∧ (was.status = .closed → s.status = .closed)

theorem Later.step (was s : StreamThreads) (e : StreamEvent) (h : Later was s) (hcond : s.Undisturbed e) :
    Later was (s.step e) :=
  ⟨(h.1.step e hcond).1, fun hclosed => (h.1.step e hcond).2 (h.2 hclosed)⟩

/-- **In every run in which no swap of `close` comes between a test of the status and what a thread does on it, and a
closed stream is not connected again: once closed it stays closed, `on_closed` runs at most once, and no read or write is
started on a closed stream.** -/
theorem run_closed_stays (t : NetType) (transportType : TransportType) (limit : Int) (es es' : List StreamEvent)
    (hcond : Along step Undisturbed (init t transportType limit) (es ++ es')) :
    let s := es.foldl step (init t transportType limit)
    let s' := es'.foldl step s
    (s.status = .closed → s'.status = .closed) ∧ s'.closedCalls ≤ 1 ∧ s'.lateStarts = 0 := by
  intro s s'
  obtain ⟨hbefore, hafter⟩ := Run.along_append.1 hcond
  have hs : s.Final := by
    apply Run.foldl_inv (fun s e hs he => (Final.step hs e he).1) es ?_ hbefore
    exact ⟨by simp [init], by simp [init, isClosed], rfl⟩
  have hs' : Later s s' := by
    apply Run.foldl_inv (Later.step s) es' ?_ hafter
    exact ⟨hs, id⟩
  refine ⟨hs'.2, ?_, hs'.1.punctual⟩
  have honce := hs'.1.once
  unfold isClosed at honce
  split at honce <;> omega

/-- A stream is closed before its connection is there. -/
theorem run_closed_stays_unconnected :
    let s := [.call .asyncConnect, .step 0 {}, .call .close, .step 0 {}].foldl step (init .client .tcp 0)
    let s' := [.step 0 {}, .step 0 {}, .connectCompletes false, .step 0 {}].foldl step s
    (s.status = .closed → s'.status = .closed) ∧ s'.closedCalls ≤ 1 ∧ s'.lateStarts = 0 := by
  apply run_closed_stays .client .tcp 0 [.call .asyncConnect, .step 0 {}, .call .close, .step 0 {}]
    [.step 0 {}, .step 0 {}, .connectCompletes false, .step 0 {}]
  simp [Along, Undisturbed, Uncritical, StreamThreads.step, call, StreamThreads.start, init, act, connectActions,
    Threads.advance, StreamAction.critical, StreamAction.kcpConnects]

/-- `on_connected` closes the stream, and `set_socket_connected` stores its status over that: the stream is connected
again, and `on_closed` runs again when it is closed again. -/
theorem closed_connected :
    let s := [.call .asyncConnect, .step 0 {}, .connectCompletes false, .step 0 {}, .step 0 {}, .step 0 {},
      .inCallback 0 .close, .step 0 {}].foldl step (init .client .tcp 0)
    let s' := [.step 0 {}, .step 0 {}, .step 0 {}, .step 0 {}, .step 0 {}].foldl step s
    s.status = .closed ∧ s'.status = .connected ∧
    ([.call .close, .step 0 {}, .step 0 {}, .step 0 {}].foldl step s').closedCalls = 2 :=
  ⟨rfl, rfl, rfl⟩

end StreamThreads

end Gb
